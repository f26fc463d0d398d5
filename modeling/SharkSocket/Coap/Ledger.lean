import SharkSocket.Coap.Frame
import SharkSocket.Lib.Machine

/-!
# What has become of each notification

A notification is known by its remote and message ID.  The log says which keys
were issued, sent, given up unsent, sent again and acknowledged.  Message IDs
wrap around, so a key says which notification is meant only from its last issue
on, and only if every earlier one with the same key had left its sender by then:
`LastIssue log k l m` splits the log at that point.  In the part after it,
`Acknowledged` is "an ACK was processed after the notification was sent", and
`SentAfterAck` "and it was sent once more after that".

At any moment some keys are in the hands of a goroutine: about to be sent for
the first time, sent but not yet tracked, or taken out for a retransmission.
`Ledger busy log pending` relates those, the log and the table of pending
notifications.  It is kept by each thing the server does with a notification
(`Ledger.issue`, `.sent_first`, `.drop`, `.track`, `.take`, `.resent`), and by an
ACK for a key that no goroutine holds after its send (`Ledger.ack`).
-/

namespace SharkSocket.Coap

open Lib
open Std (ExtTreeMap)

def Acknowledged (log : List Event) (k : ExchangeKey) : Prop :=
  ∃ l m, log = l ++ .acked k :: m ∧ .notified k ∈ l

def SentAfterAck (log : List Event) (k : ExchangeKey) : Prop :=
  ∃ l m, log = l ++ .acked k :: m ∧ .notified k ∈ l ∧ (.notified k ∈ m ∨ .resent k ∈ m)

/-- The event says nothing about notifications. -/
def Event.idle : Event → Prop
  | .issued _ | .notified _ | .dropped _ | .resent _ | .acked _ => False
  | _ => True

theorem Event.idle_of_plain : ∀ (e : Event), e.plain → e.idle := by
  intro e he
  cases e <;> trivial

/-! ### Logs, one event at a time -/

theorem acknowledged_concat (log : List Event) (e : Event) (k : ExchangeKey) :
    Acknowledged (log ++ [e]) k ↔ Acknowledged log k ∨ e = .acked k ∧ .notified k ∈ log := by
  constructor
  · rintro ⟨l, m, h, hn⟩
    rcases split_concat h with ⟨rfl, rfl, rfl⟩ | ⟨m', rfl, rfl⟩
    · exact Or.inr ⟨rfl, hn⟩
    · exact Or.inl ⟨l, m', rfl, hn⟩
  · rintro (⟨l, m, rfl, hn⟩ | ⟨rfl, hn⟩)
    · exact ⟨l, m ++ [e], by simp, hn⟩
    · exact ⟨log, [], rfl, hn⟩

theorem sentAfterAck_concat (log : List Event) (e : Event) (k : ExchangeKey) :
    SentAfterAck (log ++ [e]) k ↔
      SentAfterAck log k ∨ Acknowledged log k ∧ (e = .notified k ∨ e = .resent k) := by
  constructor
  · rintro ⟨l, m, h, hn, hm⟩
    rcases split_concat h with ⟨rfl, rfl, rfl⟩ | ⟨m', rfl, rfl⟩
    · simp at hm
    simp only [List.mem_append, List.mem_singleton] at hm
    rcases hm with (hm | hm) | (hm | hm)
    · exact Or.inl ⟨l, m', rfl, hn, Or.inl hm⟩
    · exact Or.inr ⟨⟨l, m', rfl, hn⟩, Or.inl hm.symm⟩
    · exact Or.inl ⟨l, m', rfl, hn, Or.inr hm⟩
    · exact Or.inr ⟨⟨l, m', rfl, hn⟩, Or.inr hm.symm⟩
  · rintro (⟨l, m, rfl, hn, hm⟩ | ⟨⟨l, m, rfl, hn⟩, hm⟩)
    · refine ⟨l, m ++ [e], by simp, hn, ?_⟩
      rcases hm with hm | hm
      · exact Or.inl (List.mem_append_left _ hm)
      · exact Or.inr (List.mem_append_left _ hm)
    · refine ⟨l, m ++ [e], by simp, hn, ?_⟩
      rcases hm with rfl | rfl
      · exact Or.inl (by simp)
      · exact Or.inr (by simp)

variable {k : ExchangeKey}

theorem Acknowledged.notified_mem {log : List Event} (h : Acknowledged log k) :
    .notified k ∈ log := by
  obtain ⟨l, m, rfl, hn⟩ := h
  exact List.mem_append_left _ hn

/-- `m` is what happened since `k` was last issued, with no earlier notification
of that key still unsent at the time. -/
structure LastIssue (log : List Event) (k : ExchangeKey) (l m : List Event) : Prop where
  split : log = l ++ .issued k :: m
  last : .issued k ∉ m
  settled : l.count (.issued k) = l.count (.notified k) + l.count (.dropped k)

theorem LastIssue.concat {log l m : List Event} {e : Event} (h : LastIssue (log ++ [e]) k l m) :
    m = [] ∨ ∃ m', m = m' ++ [e] ∧ e ≠ .issued k ∧ LastIssue log k l m' := by
  rcases split_concat h.split with ⟨-, -, rfl⟩ | ⟨m', rfl, hlog⟩
  · exact Or.inl rfl
  have hlast := h.last
  rw [List.mem_append, not_or, List.mem_singleton] at hlast
  exact Or.inr ⟨m', rfl, Ne.symm hlast.2, hlog, hlast.1, h.settled⟩

theorem not_acknowledged_nil (k : ExchangeKey) : ¬ Acknowledged [] k := by
  rintro ⟨l, m, h, -⟩
  simp at h

theorem not_sentAfterAck_nil (k : ExchangeKey) : ¬ SentAfterAck [] k := by
  rintro ⟨l, m, h, -⟩
  simp at h

/-! ### The ledger -/

/-- The keys some goroutine holds. -/
structure Busy where
  sending : List ExchangeKey
  tracking : List ExchangeKey
  resending : Option ExchangeKey

/-- A key whose notification was sent and that is still being looked after. -/
def Busy.Holds (b : Busy) (pending : ExtTreeMap ExchangeKey PendingNotify) (k : ExchangeKey) :
    Prop :=
  k ∈ b.tracking ∨ k ∈ pending ∨ b.resending = some k

structure Ledger (b : Busy) (log : List Event)
    (pending : ExtTreeMap ExchangeKey PendingNotify) : Prop where
  count : ∀ k, log.count (.notified k) + log.count (.dropped k) + b.sending.count k =
    log.count (.issued k)
  unacked : ∀ k l m, LastIssue log k l m → b.Holds pending k → ¬ Acknowledged m k
  quiet : ∀ k l m, LastIssue log k l m → ¬ SentAfterAck m k

namespace Ledger

variable {b b' : Busy} {log : List Event} {pending pending' : ExtTreeMap ExchangeKey PendingNotify}

section

variable (h : Ledger b log pending)
include h

theorem mono (hs : ∀ k, b'.sending.count k = b.sending.count k)
    (hh : ∀ k, b'.Holds pending' k → b.Holds pending k) : Ledger b' log pending' where
  count k := by rw [hs k]; exact h.count k
  unacked k l m he hk := h.unacked k l m he (hh k hk)
  quiet := h.quiet

theorem shrink (hp : ∀ k ∈ pending', k ∈ pending) :
    Ledger b log pending' :=
  h.mono (fun _ => rfl) (fun _ hk => hk.imp_right (Or.imp_left (hp _)))

theorem congr (hs : b'.sending.Perm b.sending)
    (ht : b'.tracking.Perm b.tracking) (hr : b'.resending = b.resending) :
    Ledger b' log pending := by
  refine h.mono (fun k => hs.count_eq k) ?_
  rintro k (hk | hk | hk)
  · exact Or.inl (ht.mem_iff.mp hk)
  · exact Or.inr (Or.inl hk)
  · exact Or.inr (Or.inr (hr ▸ hk))

/-- One more event.  It must not acknowledge a key that is looked after, nor send
one that was acknowledged. -/
theorem concat {e : Event}
    (hc : ∀ k, (log ++ [e]).count (.notified k) + (log ++ [e]).count (.dropped k) +
      b'.sending.count k = (log ++ [e]).count (.issued k))
    (ha : ∀ k l m, LastIssue log k l m → b'.Holds pending' k → ¬ Acknowledged m k ∧ e ≠ .acked k)
    (hs : ∀ k l m, LastIssue log k l m → Acknowledged m k → e ≠ .notified k ∧ e ≠ .resent k) :
    Ledger b' (log ++ [e]) pending' where
  count := hc
  unacked k l m he hh := by
    rcases he.concat with rfl | ⟨m', rfl, -, he'⟩
    · exact not_acknowledged_nil k
    rw [acknowledged_concat]
    obtain ⟨h1, h2⟩ := ha k l m' he' hh
    rintro (hack | ⟨heq, -⟩)
    · exact h1 hack
    · exact h2 heq
  quiet k l m he := by
    rcases he.concat with rfl | ⟨m', rfl, -, he'⟩
    · exact not_sentAfterAck_nil k
    rw [sentAfterAck_concat]
    rintro (hsent | ⟨hack, heq⟩)
    · exact h.quiet k l m' he' hsent
    · obtain ⟨h1, h2⟩ := hs k l m' he' hack
      exact heq.elim h1 h2

theorem concat_idle {e : Event} (he : e.idle) : Ledger b (log ++ [e]) pending := by
  refine h.concat ?_ ?_ ?_
  · intro k
    have hk := h.count k
    cases e <;> first | exact he.elim | simpa using hk
  · intro k l m hi hh
    exact ⟨h.unacked k l m hi hh, by rintro rfl; exact he⟩
  · intro k l m _ _
    exact ⟨by rintro rfl; exact he, by rintro rfl; exact he⟩

theorem append_idle : ∀ (l : List Event), (∀ e ∈ l, e.idle) → Ledger b (log ++ l) pending := by
  intro l
  induction l using List.reverseRecOn with
  | nil => intro _; rwa [List.append_nil]
  | append_singleton l e ih =>
    intro hl
    rw [← List.append_assoc]
    exact (ih (fun e he => hl e (List.mem_append_left _ he))).concat_idle (hl e (by simp))

/-- A message ID is taken for a notification. -/
theorem issue (k : ExchangeKey) :
    Ledger { b with sending := k :: b.sending } (log ++ [.issued k]) pending := by
  refine h.concat ?_ ?_ (fun _ _ _ _ _ => ⟨nofun, nofun⟩)
  · intro j
    have hj := h.count j
    by_cases hkj : k = j
    · subst hkj
      simp
      omega
    simp [hkj]
    omega
  · intro j l m hi hh
    exact ⟨h.unacked j l m hi hh, nofun⟩

end

theorem count_erase_add {α : Type*} [DecidableEq α] {l : List α} {k : α} (hk : k ∈ l) (j : α) :
    (l.erase k).count j + (if k = j then 1 else 0) = l.count j := by
  by_cases hj : k = j
  · subst hj
    have := List.count_pos_iff.mpr hk
    rw [List.count_erase_self, if_pos rfl]
    omega
  · rw [List.count_erase_of_ne (Ne.symm hj), if_neg hj, Nat.add_zero]

variable (h : Ledger b log pending)
include h

/-- A notification still to be sent was not sent since its key was issued. -/
theorem not_notified (hk : k ∈ b.sending) {l m : List Event}
    (hi : LastIssue log k l m) : .notified k ∉ m := by
  intro hm
  have h1 := h.count k
  have h2 := hi.settled
  have h3 := List.count_pos_iff.mpr hk
  have h4 := List.count_pos_iff.mpr hm
  have h5 := List.count_eq_zero.mpr hi.last
  rw [hi.split] at h1
  simp at h1
  omega

/-- The first send of a notification. -/
theorem sent_first (hk : k ∈ b.sending) :
    Ledger ⟨b.sending.erase k, k :: b.tracking, b.resending⟩ (log ++ [.notified k]) pending := by
  have hfresh : ∀ l m, LastIssue log k l m → ¬ Acknowledged m k := fun l m hi hack =>
    h.not_notified hk hi hack.notified_mem
  refine h.concat ?_ ?_ ?_
  · intro j
    have h1 := h.count j
    have h2 := count_erase_add hk j
    by_cases hj : k = j
    · subst hj
      rw [if_pos rfl] at h2
      simp
      omega
    rw [if_neg hj] at h2
    simp [hj]
    omega
  · intro j l m hi hh
    refine ⟨?_, nofun⟩
    by_cases hj : j = k
    · subst hj
      exact hfresh l m hi
    refine h.unacked j l m hi ?_
    rcases hh with hh | hh
    · exact Or.inl ((List.mem_cons.mp hh).resolve_left hj)
    · exact Or.inr hh
  · intro j l m hi hack
    refine ⟨?_, nofun⟩
    rintro ⟨⟩
    exact hfresh l m hi hack

/-- The first send failed, and the notification is given up. -/
theorem drop (hk : k ∈ b.sending) :
    Ledger { b with sending := b.sending.erase k } (log ++ [.dropped k]) pending := by
  refine h.concat ?_ ?_ (fun _ _ _ _ _ => ⟨nofun, nofun⟩)
  · intro j
    have h1 := h.count j
    have h2 := count_erase_add hk j
    by_cases hj : k = j
    · subst hj
      rw [if_pos rfl] at h2
      simp
      omega
    rw [if_neg hj] at h2
    simp [hj]
    omega
  · intro j l m hi hh
    exact ⟨h.unacked j l m hi hh, nofun⟩

theorem track (hk : k ∈ b.tracking) (pn : PendingNotify) :
    Ledger { b with tracking := b.tracking.erase k } log (pending.insert k pn) := by
  refine h.mono (fun _ => rfl) ?_
  intro j hh
  rcases hh with hh | hh | hh
  · exact Or.inl (List.mem_of_mem_erase hh)
  · rcases mem_insert_iff.mp hh with rfl | hh
    · exact Or.inl hk
    · exact Or.inr (Or.inl hh)
  · exact Or.inr (Or.inr hh)

/-- An ACK, when no goroutine is between the send of the notification and the
next thing it does with it. -/
theorem ack (ht : k ∉ b.tracking) (hr : b.resending ≠ some k) :
    Ledger b (log ++ [.acked k]) (pending.erase k) := by
  refine h.concat ?_ ?_ (fun _ _ _ _ _ => ⟨nofun, nofun⟩)
  · intro j
    simpa using h.count j
  · intro j l m hi hh
    have hj : j ≠ k := by
      rintro rfl
      rcases hh with hh | hh | hh
      · exact ht hh
      · exact absurd hh (by simp)
      · exact hr hh
    refine ⟨h.unacked j l m hi ?_, fun he => hj (Event.acked.inj he).symm⟩
    exact hh.imp_right (Or.imp_left ExtTreeMap.mem_of_mem_erase)

theorem take (hk : k ∈ pending) (pn : PendingNotify) :
    Ledger { b with resending := some k } log (pending.insert k pn) := by
  refine h.mono (fun _ => rfl) ?_
  rintro j (hh | hh | hh)
  · exact Or.inl hh
  · rcases mem_insert_iff.mp hh with rfl | hh
    · exact Or.inr (Or.inl hk)
    · exact Or.inr (Or.inl hh)
  · cases hh
    exact Or.inr (Or.inl hk)

theorem release : Ledger { b with resending := none } log pending := by
  refine h.mono (fun _ => rfl) ?_
  rintro j (hj | hj | hj)
  · exact Or.inl hj
  · exact Or.inr (Or.inl hj)
  · cases hj

theorem resent (hb : b.resending = some k) :
    Ledger { b with resending := none } (log ++ [.resent k]) pending := by
  have h0 : Ledger b (log ++ [.resent k]) pending := by
    refine h.concat ?_ (fun j l m hi hh => ⟨h.unacked j l m hi hh, nofun⟩) ?_
    · intro j
      simpa using h.count j
    · intro j l m hi hack
      refine ⟨nofun, ?_⟩
      rintro ⟨⟩
      exact h.unacked k l m hi (Or.inr (Or.inr hb)) hack
  exact h0.release

end Ledger

end SharkSocket.Coap
