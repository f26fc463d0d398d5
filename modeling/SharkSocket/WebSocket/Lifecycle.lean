import SharkSocket.Shared.Upgrades

/-!
# `websocket/server.go`: the life of a session

The session is stored in the server's table before it is registered and accepted, so a
`CloseSessions` that runs meanwhile may take it out and close it first.  `OnClose` is then
called for a session that no plugin has accepted, and a `Register` that comes after the
`Unregister` leaves the session in the `SessionManager` for good
(`session_closed_before_accepted`).  When no session is taken out before its `OnAccept`
has returned nil, neither can happen (`session_lifecycle`).
-/

namespace SharkSocket.WebSocket

open Lib
open SharkSocket.Shared
open SharkSocket.Shared.Upgrades (unlimited unlimited_init handler other)

/-- `closeSession` once it has the session. -/
def closeSession : List Act := [.unregister, .close, .onClose]

/-- The end of `handleUpgrade` after `Register` or `OnAccept` failed. -/
def refused : List Op := [.act .done, .drop]

/-- The read loop's goroutine gives the slot back when `readLoop` has returned. -/
def transport (pingInterval : Int) : Transport where
  body := closeSession
  tail := [.done]
  refused := refused
  pings := 0 < pingInterval
  unary := false

variable {pingInterval : Int}

theorem transport_closes : (transport pingInterval).Closes := by
  refine ⟨rfl, show Act.onClose ∉ [Act.done] by decide, ?_, show Op.drop ∈ refused by decide⟩
  intro op hop
  rcases List.mem_cons.mp hop with rfl | hop
  · exact .inr ⟨.done, rfl, nofun⟩
  · exact .inl (List.mem_singleton.mp hop)

/-! ### Order -/

/-- Every `b` of the history comes after an `a`. -/
def After (a b : Note) (history : List Note) : Prop :=
  ∀ pre post, history = pre ++ b :: post → a ∈ pre

namespace After

variable {a b n : Note} {history more : List Note}

theorem nil : After a b [] := by
  intro pre post h
  simp at h

theorem left (h : After a b (history ++ more)) : After a b history := by
  rintro pre post rfl
  exact h pre (post ++ more) (by simp)

theorem concat (h : After a b history) (hn : n = b → a ∈ history) : After a b (history ++ [n]) := by
  intro pre post heq
  rcases split_concat heq with ⟨rfl, rfl, -⟩ | ⟨post', -, hold⟩
  · exact hn rfl
  · exact h pre post' hold

theorem mem (h : After a b history) (hb : b ∈ history) : a ∈ history := by
  obtain ⟨pre, post, rfl⟩ := List.append_of_mem hb
  exact List.mem_append_left _ (h pre post rfl)

end After

/-! ### Sessions that are accepted before they are taken out -/

/-- The session is taken out of the table, if at all, after `OnAccept` returned nil. -/
def AcceptedFirst (u : Upgrade) : Prop := After .accepted .taken u.history

/-- `OnClose` follows `OnAccept`, and somebody is sure to unregister a registered session
that is out of the table. -/
structure Orderly (u : Upgrade) : Prop where
  order : After .accepted .onClose u.history
  unregisters : u.registered = true →
    u.inTable = true ∨ .act .unregister ∈ u.handler ∨ 0 < owed u.others .unregister

namespace Orderly

variable {tr : Transport} {u u' : Upgrade}

theorem order_step (h : Orderly u) (hshape : Shape tr u) (hfirst : AcceptedFirst u)
    (hst : HandlerStep tr u u' ∨ OtherStep tr u u') : After .accepted .onClose u'.history := by
  rcases history_step hst with heq | ⟨n, heq, hn⟩
  · rw [heq]
    exact h.order
  rw [heq]
  refine h.order.concat fun hclose => hfirst.mem ?_
  have hcloses := hshape.closes
  have howed := hn hclose
  exact List.count_pos_iff.mp (by omega)

/-- A session that is registered and not accepted yet is in the table. -/
theorem inTable_of_opening (hshape : Shape tr u) (hfirst : AcceptedFirst u)
    (hpos : u.handler = [.register, .onAccept, .start]) : u.inTable = true := by
  cases hshape.phase with
  | arriving hpos' _ _ _ => simp [hpos, handleUpgrade] at hpos'
  | opening _ hacc _ htable =>
    have htaken : .taken ∉ u.history := fun h => hacc (hfirst.mem h)
    rw [List.count_eq_zero_of_not_mem htaken] at htable
    cases hin : u.inTable with
    | true => rfl
    | false => simp [hin] at htable
  | running hpos' _ _ _ _ => simp [hpos] at hpos'
  | refused hpos' _ _ _ _ =>
    rw [hpos] at hpos'
    have hop := hpos' .register List.mem_cons_self
    simp at hop

theorem registered_of_perform {a : Act} (ha : a ≠ .unregister)
    (hreg : (u.perform a).registered = true) : u.registered = true := by
  cases a with
  | unregister => exact absurd rfl ha
  | _ => exact hreg

theorem unregisters_handler (h : Orderly u) (hshape : Shape tr u) (hfirst : AcceptedFirst u)
    (hst : HandlerStep tr u u') (hreg : u'.registered = true) :
    u'.inTable = true ∨ .act .unregister ∈ u'.handler ∨ 0 < owed u'.others .unregister := by
  have hkept : .act .unregister ∉ u.handler → u.registered = true →
      u.inTable = true ∨ 0 < owed u.others .unregister := by
    intro hnot hreg
    rcases h.unregisters hreg with hin | hmem | howed
    · exact .inl hin
    · exact absurd hmem hnot
    · exact .inr howed
  cases hst with
  | upgraded hpos | notUpgraded hpos =>
      exact (hkept (by simp [hpos, handleUpgrade]) hreg).imp_right .inr
  | stored hpos => exact .inl rfl
  | registered hpos =>
    -- nobody has taken out a session that is not accepted yet
    have hin : u.inTable = true := inTable_of_opening hshape hfirst hpos
    exact .inl hin
  | accepted hpos => exact (hkept (by simp [hpos]) hreg).imp_right .inr
  | refused hpos =>
    refine (hkept ?_ hreg).imp_right .inr
    rcases hpos with hpos | hpos <;> simp [hpos]
  | started hpos =>
    refine (hkept (by simp [hpos]) hreg).imp_right fun howed => .inr ?_
    simp only [owed, List.map_append, List.sum_append]
    exact Nat.add_pos_left howed _
  | dropped rest hpos hin => exact .inr (.inl List.mem_cons_self)
  | absent rest hpos hin =>
    have hold := h.unregisters hreg
    rw [hpos] at hold
    simpa using hold
  | acted a rest hpos ha =>
    by_cases hun : a = .unregister
    · subst hun
      cases hreg
    have hold := h.unregisters (registered_of_perform hun hreg)
    rw [hpos] at hold
    rw [u.inTable_perform a, u.others_perform a]
    simpa [Ne.symm hun] using hold

theorem unregisters_other (h : Orderly u) (htr : 0 < tr.body.count .unregister)
    (hst : OtherStep tr u u') (hreg : u'.registered = true) :
    u'.inTable = true ∨ .act .unregister ∈ u'.handler ∨ 0 < owed u'.others .unregister := by
  cases hst with
  | idle howed =>
    rw [howed]
    exact h.unregisters hreg
  | took hin howed =>
    refine .inr (.inr ?_)
    rw [howed]
    exact Nat.add_pos_right _ htr
  | acted a howed =>
    by_cases ha : a = .unregister
    · subst ha
      cases hreg
    have ho := howed .unregister
    rw [if_neg (Ne.symm ha), add_zero] at ho
    rw [ho, u.inTable_perform a, u.handler_perform a]
    exact h.unregisters (registered_of_perform ha hreg)
  | closed => exact h.unregisters hreg

end Orderly

theorem AcceptedFirst.back {tr : Transport} {u u' : Upgrade}
    (hst : HandlerStep tr u u' ∨ OtherStep tr u u') (h : AcceptedFirst u') : AcceptedFirst u := by
  unfold AcceptedFirst at h
  rcases history_step hst with heq | ⟨n, heq, -⟩
  · rwa [heq] at h
  rw [heq] at h
  exact h.left

theorem orderly_of_reachable {s : Upgrades}
    (hs : (upgrading (transport pingInterval)).Reachable s) :
    ∀ u ∈ s.upgrades, Shape (transport pingInterval) u ∧ (AcceptedFirst u → Orderly u) := by
  refine Shape.inv_of_reachable transport_closes ?_ ?_ hs
  · intro peer _
    exact ⟨After.nil, nofun⟩
  · intro u u' hshape horderly hst hfirst'
    have hfirst := hfirst'.back hst
    have h := horderly hfirst
    refine ⟨h.order_step hshape hfirst hst, fun hreg => ?_⟩
    rcases hst with hst | hst
    · exact h.unregisters_handler hshape hfirst hst hreg
    · exact h.unregisters_other (show 0 < closeSession.count .unregister by decide) hst hreg

/-! ### The life of a session -/

/-- **The life of a WebSocket session.**  In every run `OnClose` is called at most once for
a session.  When all goroutines have returned it was called exactly once if `OnAccept`
returned nil, and once for every session that was taken out of the table, accepted or not;
and the session is not in the server's table.  If the session was not taken out of the
table before its `OnAccept` returned nil, `OnClose` is called only after that, and when
all goroutines have returned the session is not in the `SessionManager` either. -/
theorem session_lifecycle (pingInterval : Int) (s : Upgrades)
    (hs : (upgrading (transport pingInterval)).Reachable s) (u : Upgrade) (hu : u ∈ s.upgrades) :
    u.history.count .onClose ≤ 1 ∧
    (u.Finished → (.accepted ∈ u.history → u.history.count .onClose = 1) ∧
      u.history.count .onClose = u.history.count .taken ∧ u.inTable = false) ∧
    (AcceptedFirst u → After .accepted .onClose u.history ∧
      (u.Finished → u.registered = false)) := by
  obtain ⟨hshape, horderly⟩ := orderly_of_reachable hs u hu
  refine ⟨hshape.onClose_le, fun hf => ⟨hshape.onClose_of_finished hf, ?_,
    hshape.out_of_finished hf⟩, fun hfirst => ⟨(horderly hfirst).order, fun hf => ?_⟩⟩
  · have hcloses := hshape.closes
    rwa [Shape.owed_of_finished hf, zero_add] at hcloses
  · cases hreg : u.registered with
    | false => rfl
    | true =>
      rcases (horderly hfirst).unregisters hreg with hin | hhandler | howed
      · rw [hshape.out_of_finished hf] at hin
        cases hin
      · rw [hf.1] at hhandler
        cases hhandler
      · rw [Shape.owed_of_finished hf] at howed
        cases howed

/-! ### Two runs -/

/-- An upgrade is accepted, its peer goes away, and the ping loop sees the session closed. -/
def openThenClosed : List Arrival :=
  .upgrade 0 none :: List.replicate 5 handler ++ [other 0, .move 0 (.other 0 .fail)] ++
    List.replicate 5 (other 0) ++ [.move 0 (.other 1 .cancelled)]

theorem session_lifecycle_openThenClosed :
    ∃ s u, (upgrading (transport 1)).run unlimited openThenClosed = some s ∧ u ∈ s.upgrades ∧
      u.Finished ∧ AcceptedFirst u ∧ u.history.count .onClose = 1 ∧ u.registered = false := by
  have hrun : ((upgrading (transport 1)).run unlimited openThenClosed).map (·.upgrades) =
      some [⟨none, [], [[], []], false, false, true, [.accepted, .taken, .onClose, .done]⟩] := by
    decide +kernel
  obtain ⟨s, hs, hupgrades⟩ := Option.map_eq_some_iff.mp hrun
  have hreach := Machine.reachable_of_run _ (unlimited_init _) hs
  have hu := List.mem_singleton_self
    (⟨none, [], [[], []], false, false, true, [.accepted, .taken, .onClose, .done]⟩ : Upgrade)
  rw [← hupgrades] at hu
  obtain ⟨-, hfinished, hfirst⟩ := session_lifecycle 1 s hreach _ hu
  have haccepted : After .accepted .taken [.accepted, .taken, .onClose, .done] := by
    intro pre post h
    cases pre with
    | nil => cases h
    | cons n pre =>
      rw [List.cons_append, List.cons.injEq] at h
      rw [← h.1]
      exact List.mem_cons_self
  exact ⟨s, _, hs, hu, by decide, haccepted, (hfinished (by decide)).1 (by decide),
    (hfirst haccepted).2 (by decide)⟩

/-- The session is stored, `CloseSessions` takes it out and closes it, and then it is
registered, accepted and read from. -/
def closedThenOpen : List Arrival :=
  [.upgrade 0 none, handler, handler, .move 0 .visit] ++ List.replicate 4 (other 0) ++
    [handler, handler, handler, .move 0 (.other 1 .fail)] ++ List.replicate 2 (other 1)

/-- **A session is closed before it is accepted**, and is in the `SessionManager` when all
its goroutines have returned. -/
theorem session_closed_before_accepted :
    ∃ s u, (upgrading (transport 0)).run unlimited closedThenOpen = some s ∧ u ∈ s.upgrades ∧
      u.Finished ∧ ¬ After .accepted .onClose u.history ∧ u.registered = true := by
  have hrun : ((upgrading (transport 0)).run unlimited closedThenOpen).map (·.upgrades) =
      some [⟨none, [], [[], []], false, true, true, [.taken, .onClose, .accepted, .done]⟩] := by
    decide +kernel
  obtain ⟨s, hs, hupgrades⟩ := Option.map_eq_some_iff.mp hrun
  refine ⟨s, _, hs, by rw [hupgrades]; exact List.mem_singleton_self _, by decide, fun h => ?_, rfl⟩
  have hbefore : Note.accepted ∈ [Note.taken] := h [.taken] [.accepted, .done] rfl
  exact absurd hbefore (by decide)

end SharkSocket.WebSocket
