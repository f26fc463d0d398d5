import SharkSocket.Shared.Upgrades

/-!
# `grpcweb/server.go`: the slots of upgraded connections

An upgrade gives its slot back in one of two places.  A handler that fails gives it back
itself; otherwise `closeWebSocketSession` does, called by whoever gets the session out of
the table.  The handler that fails does not look at who got it, so when `CloseSessions`
has taken a session whose `Register` or `OnAccept` fails, the slot is given back twice
(`slot_returned_twice`).  `Slots` counts both places, and says that otherwise every slot
is given back once (`slots_returned_once`).
-/

namespace SharkSocket.GrpcWeb

open Lib
open SharkSocket.Shared
open SharkSocket.Shared.Upgrades (unlimited unlimited_init handler other)

/-- `closeWebSocketSession` once it has the session. -/
def closeWebSocketSession : List Act := [.unregister, .close, .onClose, .done]

/-- The end of `handleWebSocket` after `Register` or `OnAccept` failed. -/
def refused : List Op := [.drop, .act .done]

def transport (pingInterval : Int) : Transport where
  body := closeWebSocketSession
  tail := []
  refused := refused
  pings := 0 < pingInterval
  unary := true

variable {pingInterval : Int}

theorem transport_closes : (transport pingInterval).Closes :=
  ⟨rfl, List.not_mem_nil, refusing_drop_done, List.mem_cons_self⟩

/-! ### Who gives the slot back -/

/-- `Done` was called, or somebody is sure to call it, once for a session taken out of the
table by `closeWebSocketSession` and once for a handler that gave up. -/
def Slots (u : Upgrade) : Prop :=
  u.history.count .done + owed u.others .done + pending .done u.handler =
    u.history.count .taken + u.history.count .refused

namespace Slots

variable {u u' : Upgrade}

theorem iff_slotted : Slots u ↔ Slotted (transport pingInterval) u := by
  simp [Slots, Slotted, transport, closeWebSocketSession]

theorem step (h : Slots u) (hst : HandlerStep (transport pingInterval) u u' ∨
    OtherStep (transport pingInterval) u u') : Slots u' := by
  have hbefore : Slotted (transport pingInterval) u := iff_slotted.mp h
  rcases hst with hst | hst
  · exact iff_slotted.mpr (Slotted.handler_step transport_closes rfl hbefore hst)
  · exact iff_slotted.mpr (hbefore.other_step hst)

theorem of_reachable {s : Upgrades} (hs : (upgrading (transport pingInterval)).Reachable s) :
    ∀ u ∈ s.upgrades, Shape (transport pingInterval) u ∧ Slots u :=
  Shape.inv_of_reachable transport_closes (fun _ => rfl) (fun _ h hst => h.step hst) hs

end Slots

/-- `CloseSessions` took a session out of the table whose handler gave up. -/
def Contested (u : Upgrade) : Prop := .refused ∈ u.history ∧ .taken ∈ u.history

instance (u : Upgrade) : Decidable (Contested u) := inferInstanceAs (Decidable (_ ∧ _))

section

variable {u u' : Upgrade} {tr : Transport}

theorem Contested.step (h : Contested u) (hst : HandlerStep tr u u' ∨ OtherStep tr u u') :
    Contested u' := by
  obtain ⟨hrefused, htaken⟩ := h
  rcases history_step hst with heq | ⟨n, heq, -⟩
  · rw [Contested, heq]
    exact ⟨hrefused, htaken⟩
  rw [Contested, heq]
  exact ⟨List.mem_append_left _ hrefused, List.mem_append_left _ htaken⟩

theorem count_refused_le (h : Shape tr u) : u.history.count .refused ≤ 1 := by
  cases h.phase with
  | arriving _ _ _ hhistory => simp [hhistory]
  | opening _ _ href _ | running _ _ href _ _ | refused _ _ href _ _ => omega

/-- The two places never both give the slot of an uncontested upgrade back. -/
theorem taken_refused_le (h : Shape tr u) (hclean : ¬ Contested u) :
    u.history.count .taken + u.history.count .refused ≤ 1 := by
  have htable := h.table_le
  have hrefused := count_refused_le h
  by_cases hmem : .refused ∈ u.history
  · have htaken : .taken ∉ u.history := fun htaken => hclean ⟨hmem, htaken⟩
    rw [List.count_eq_zero_of_not_mem htaken]
    omega
  rw [List.count_eq_zero_of_not_mem hmem]
  omega

/-- When all goroutines have returned, the slot was given back, once for each place. -/
theorem taken_refused_of_finished (h : Shape tr u) (hf : u.Finished) :
    u.history.count .taken + u.history.count .refused = if Contested u then 2 else 1 := by
  have hout := h.out_of_finished hf
  cases h.phase with
  | arriving hpos _ _ _ =>
    rw [hf.1] at hpos
    simp [handleUpgrade] at hpos
  | opening hpos _ _ _ =>
    rw [hf.1] at hpos
    simp at hpos
  | running _ _ href htable _ =>
    have hclean : ¬ Contested u := fun hc => List.count_eq_zero.mp href hc.1
    rw [hout] at htable
    rw [if_neg hclean, href]
    simpa using htable
  | refused _ _ href htable _ =>
    have hmem : .refused ∈ u.history := List.count_pos_iff.mp (by omega)
    rw [hout] at htable
    by_cases htaken : .taken ∈ u.history
    · have hpos := List.count_pos_iff.mpr htaken
      rw [if_pos ⟨hmem, htaken⟩]
      omega
    rw [if_neg fun hc => htaken hc.2, List.count_eq_zero_of_not_mem htaken]
    omega

end

/-! ### Who holds a slot -/

/-- The peer of an upgrade that has its slot. -/
def slot (u : Upgrade) : Option PeerIP := if .done ∈ u.history then none else some u.peer

def holders (s : Upgrades) : Multiset PeerIP := holdings slot s.upgrades + s.requests

theorem add_singleton_add (m r : Multiset PeerIP) (ip : PeerIP) :
    m + {ip} + r = ip ::ₘ (m + r) := by
  rw [add_right_comm, Multiset.add_comm _ {ip}, Multiset.singleton_add]

/-- As long as no upgrade is contested, the quota is held by the upgrades that have their
slot and by the other requests. -/
def Accounts (s : Upgrades) : Prop :=
  (∀ u ∈ s.upgrades, ¬ Contested u) → s.acceptor.quota.HeldBy (holders s)

namespace Accounts

variable {s t : Upgrades}

/-- A move of an uncontested upgrade gives the slot back when it calls `Done`. -/
theorem move (h : s.acceptor.quota.HeldBy (holders s)) {k : Nat} {m : Move} {u u' : Upgrade}
    (hu : s.upgrades[k]? = some u) (hst : u.step (transport pingInterval) m = some u')
    (hle : u'.history.count .done ≤ 1) :
    (if u.next m = some (.act .done) then s.acceptor.done u.peer
      else s.acceptor).quota.HeldBy (holders { s with upgrades := s.upgrades.set k u' }) := by
  obtain ⟨hpeer, hdone⟩ := Upgrade.step_done hst
  have hset := holdings_set slot hu u'
  by_cases hnext : u.next m = some (.act .done)
  · rw [if_pos hnext] at hdone ⊢
    have hbefore : slot u = some u.peer := if_neg (List.count_eq_zero.mp (by omega))
    have hafter : slot u' = none := if_pos (List.count_pos_iff.mp (by omega))
    rw [hbefore, hafter, held_none, add_zero] at hset
    refine PeerQuota.HeldBy.release ?_
    have hholders : holders s = u.peer ::ₘ holders { s with upgrades := s.upgrades.set k u' } := by
      have hheld : held (some u.peer) = {u.peer} := rfl
      rw [holders, ← hset, hheld, add_singleton_add]
      rfl
    rwa [hholders] at h
  · rw [if_neg hnext, add_zero] at hdone
    rw [if_neg hnext]
    have hsame : slot u' = slot u := by
      have hiff : .done ∈ u'.history ↔ .done ∈ u.history := by
        rw [← List.count_pos_iff, ← List.count_pos_iff, hdone]
      simp only [slot, hiff, hpeer]
    rw [hsame] at hset
    have hholders : holders { s with upgrades := s.upgrades.set k u' } = holders s := by
      rw [holders, holders, add_right_cancel hset]
    rwa [hholders]

/-- A contested upgrade stays contested. -/
theorem clean_back {l : List Upgrade} {k : Nat} {u u' : Upgrade} (hu : l[k]? = some u)
    (hmono : Contested u → Contested u') (hclean : ∀ v ∈ l.set k u', ¬ Contested v) :
    ∀ v ∈ l, ¬ Contested v := by
  intro v hv hc
  obtain ⟨i, hi⟩ := List.mem_iff_getElem?.mp hv
  by_cases hik : i = k
  · rw [hik, hu] at hi
    cases hi
    have hk := (List.getElem?_eq_some_iff.mp hu).1
    exact hclean u' (List.mem_iff_getElem?.mpr ⟨k, List.getElem?_set_self hk⟩) (hmono hc)
  refine hclean v (List.mem_iff_getElem?.mpr ⟨i, ?_⟩) hc
  rw [List.getElem?_set_ne (Ne.symm hik), hi]

theorem step (hs : (upgrading (transport pingInterval)).Reachable s) (h : Accounts s) {a : Arrival}
    (hst : s.step (transport pingInterval) a = some t) : Accounts t := by
  intro hclean
  cases a with
  | upgrade now peer =>
    cases hst
    by_cases hok : (s.acceptor.tryAccept now peer).1 = .ok
    · simp only [hok, if_true] at hclean ⊢
      have hafter := Acceptor.heldBy_tryAccept
        (h fun u hu => hclean u (List.mem_append_left _ hu)) now peer
      rw [if_pos hok, holders, ← add_singleton_add] at hafter
      rw [holders, holdings_concat]
      exact hafter
    simp only [hok, if_false] at hclean ⊢
    have hafter := Acceptor.heldBy_tryAccept (h hclean) now peer
    rw [if_neg hok] at hafter
    exact hafter
  | move k m =>
    rw [Upgrades.step] at hst
    split at hst
    · cases hst
    rename_i u hu
    obtain ⟨u', hu', rfl⟩ := Option.map_eq_some_iff.mp hst
    obtain ⟨hshape, hslots⟩ := Slots.of_reachable hs u (List.mem_of_getElem? hu)
    have hcases := (step_cases hshape transport_closes hu').1
    have hk := (List.getElem?_eq_some_iff.mp hu).1
    have hclean' : ¬ Contested u' :=
      hclean u' (List.mem_iff_getElem?.mpr ⟨k, List.getElem?_set_self hk⟩)
    have hle : u'.history.count .done ≤ 1 := by
      have hsum : Slots u' := hslots.step hcases
      have hplaces := taken_refused_le (hshape.step transport_closes hu') hclean'
      unfold Slots at hsum
      omega
    exact move (h (clean_back hu (fun hc => hc.step hcases) hclean)) hu hu' hle
  | request now peer =>
    cases hst
    have hafter := Acceptor.heldBy_tryAccept (h hclean) now peer
    by_cases hok : (s.acceptor.tryAccept now peer).1 = .ok
    · rw [if_pos hok] at hafter
      simp only [holders, hok, if_true, ← Multiset.cons_coe, Multiset.add_cons]
      exact hafter
    rw [if_neg hok] at hafter
    simp only [hok, if_false]
    exact hafter
  | answered k =>
    rw [Upgrades.step] at hst
    split at hst
    · cases hst
    rename_i peer hpeer
    cases hst
    have hheld := h hclean
    have hperm : s.requests = peer ::ₘ (s.requests.eraseIdx k) := by
      obtain ⟨hk, rfl⟩ := List.getElem?_eq_some_iff.mp hpeer
      exact Multiset.coe_eq_coe.mpr (List.getElem_cons_eraseIdx_perm hk).symm
    rw [holders, hperm, Multiset.add_cons] at hheld
    exact hheld.release

theorem of_reachable (hs : (upgrading (transport pingInterval)).Reachable s) : Accounts s := by
  have hboth : (upgrading (transport pingInterval)).Reachable s ∧ Accounts s := by
    refine hs.inv (I := fun s => (upgrading (transport pingInterval)).Reachable s ∧ Accounts s) ?_ ?_
    · intro s hinit
      refine ⟨⟨s, [], hinit, .nil s⟩, fun _ => ?_⟩
      obtain ⟨⟨now, maxConns, rate, maxPerPeer, hacceptor⟩, hupgrades, hrequests⟩ := hinit
      rw [holders, hupgrades, hrequests, hacceptor]
      exact .new maxConns maxPerPeer
    · rintro s a t ⟨hreach, h⟩ - hst
      exact ⟨hreach.path (.cons trivial hst (.nil t)), h.step hreach hst⟩
  exact hboth.2

end Accounts

/-! ### Slots are given back once -/

/-- The upgrades that have their slot are counted by the quota. -/
theorem countP_le_card (l : List Upgrade) (r : Multiset PeerIP) :
    l.countP (fun u => .done ∉ u.history) ≤ (holdings slot l + r).card := by
  have hcard : (holdings slot l).card = l.countP (fun u => .done ∉ u.history) := by
    rw [holdings, Multiset.coe_card, List.length_filterMap_eq_countP]
    refine List.countP_congr fun u _ => ?_
    by_cases hdone : .done ∈ u.history <;> simp [slot, hdone]
  rw [Multiset.card_add, hcard]
  exact Nat.le_add_right _ _

/-- **An upgrade's slot is given back once.**  In every run, when the goroutines of an
admitted upgrade have returned, `Done` was called exactly once for its peer, and twice if
`CloseSessions` took the session out of the table and its handler gave up.  If there is
no such upgrade, no slot is ever given back twice, the quota is held exactly by the
upgrades that still have their slot and the other requests being handled, and so the
active count is at least the number of those upgrades. -/
theorem slots_returned_once (pingInterval : Int) (s : Upgrades)
    (hs : (upgrading (transport pingInterval)).Reachable s) :
    (∀ u ∈ s.upgrades, u.Finished → u.history.count .done = if Contested u then 2 else 1) ∧
    ((∀ u ∈ s.upgrades, ¬ Contested u) →
      (∀ u ∈ s.upgrades, u.history.count .done ≤ 1) ∧ s.acceptor.quota.HeldBy (holders s) ∧
      s.upgrades.countP (fun u => .done ∉ u.history) ≤ s.acceptor.quota.total) := by
  refine ⟨?_, fun hclean => ⟨?_, Accounts.of_reachable hs hclean, ?_⟩⟩
  · intro u hu hf
    obtain ⟨hshape, hslots⟩ := Slots.of_reachable hs u hu
    rw [Slots, Shape.owed_of_finished hf, hf.1] at hslots
    exact hslots.trans (taken_refused_of_finished hshape hf)
  · intro u hu
    obtain ⟨hshape, hslots⟩ := Slots.of_reachable hs u hu
    have hplaces := taken_refused_le hshape (hclean u hu)
    unfold Slots at hslots
    omega
  · rw [(Accounts.of_reachable hs hclean).total, Nat.cast_le]
    exact countP_le_card _ _

/-- An upgrade is accepted and closed by `CloseSessions`, a second one is refused by a
plugin, and a third one has just been admitted. -/
def closedAndRefused : List Arrival :=
  .upgrade 0 (some 1) :: List.replicate 5 handler ++ [Arrival.move 0 .visit] ++
    List.replicate 5 (other 1) ++ [Arrival.move 0 (.other 0 .fail), other 0] ++
    [Arrival.upgrade 0 (some 2), .move 1 (.handler .ok), .move 1 (.handler .ok),
      .move 1 (.handler .ok), .move 1 (.handler .fail)] ++
    List.replicate 4 (Arrival.move 1 (.handler .ok)) ++ [Arrival.upgrade 0 (some 1)]

def afterClosedAndRefused : List Upgrade :=
  [⟨some 1, [], [[], []], false, false, true, [.accepted, .taken, .onClose, .done]⟩,
    ⟨some 2, [], [], false, false, true, [.refused, .done]⟩, .admitted (some 1)]

theorem slots_returned_once_closedAndRefused :
    ∃ s, (upgrading (transport 0)).run unlimited closedAndRefused = some s ∧
      s.upgrades = afterClosedAndRefused ∧ (∀ u ∈ s.upgrades, ¬ Contested u) ∧
      (∀ u ∈ s.upgrades, u.Finished → u.history.count .done = 1) ∧ 1 ≤ s.acceptor.quota.total := by
  have hrun : ((upgrading (transport 0)).run unlimited closedAndRefused).map (·.upgrades) =
      some afterClosedAndRefused := by
    decide +kernel
  obtain ⟨s, hs, hupgrades⟩ := Option.map_eq_some_iff.mp hrun
  obtain ⟨hfinished, hslots⟩ :=
    slots_returned_once 0 s (Machine.reachable_of_run _ (unlimited_init _) hs)
  have hclean : ∀ u ∈ s.upgrades, ¬ Contested u := by
    rw [hupgrades]
    decide
  refine ⟨s, hs, hupgrades, hclean, fun u hu hf => ?_, ?_⟩
  · rw [hfinished u hu hf, if_neg (hclean u hu)]
  · have hactive := (hslots hclean).2.2
    rw [hupgrades] at hactive
    exact hactive

/-- The session of the first upgrade is stored, `CloseSessions` takes it out and closes it,
and then its `Register` fails.  A second upgrade is being read from meanwhile. -/
def takenThenRefused : List Arrival :=
  [Arrival.upgrade 0 (some 1), .upgrade 0 (some 1)] ++
    List.replicate 5 (Arrival.move 1 (.handler .ok)) ++ [handler, handler, .move 0 .visit] ++
    List.replicate 5 (other 0) ++ [Arrival.move 0 (.handler .fail), handler, handler]

/-- **A slot is given back twice**, and the active count is zero with an accepted upgrade
open. -/
theorem slot_returned_twice :
    ∃ s u v, (upgrading (transport 0)).run unlimited takenThenRefused = some s ∧
      s.upgrades = [u, v] ∧ u.Finished ∧ u.history.count .done = 2 ∧
      v.inTable = true ∧ .accepted ∈ v.history ∧ .done ∉ v.history ∧
      s.acceptor.quota.total = 0 := by
  have hrun : ((upgrading (transport 0)).run unlimited takenThenRefused).map
      (fun s => (s.upgrades, s.acceptor.quota.total)) =
      some ([⟨some 1, [], [[]], false, false, true, [.taken, .onClose, .done, .refused, .done]⟩,
        ⟨some 1, [], [(transport 0).readLoop], true, true, false, [.accepted]⟩], 0) := by
    decide +kernel
  obtain ⟨s, hs, hresult⟩ := Option.map_eq_some_iff.mp hrun
  obtain ⟨hupgrades, htotal⟩ := Prod.mk.inj hresult
  exact ⟨s, _, _, hs, hupgrades, by decide, by decide, rfl, by decide, by decide, htotal⟩

end SharkSocket.GrpcWeb
