import SharkSocket.Lib.Keys
import SharkSocket.Shared.QuotaCalls

/-!
# What a `PeerQuota` counts

`Acquire` claims in the total before it counts the peer, and `Release` takes the peer's
count back before the total's.  So the total is the number of calls that have claimed,
less those that have given back (`charge`), and the count of an address the number of
admissions stored, less those being released (`share`).  A slot is released only by
someone who got it (`Releasable`), which keeps both from falling below zero.

Between looking the peer's count up and storing the next one, `Acquire` has the lock of
the shard, and what it has seen does not change (`Seen`).
-/

namespace SharkSocket.Shared

open Lib
open Std (ExtTreeMap)

namespace PeerQuota

variable {q : PeerQuota} {ip : PeerIP} {a : Nat}

theorem peerCount_storePeer (q : PeerQuota) (ip : PeerIP) (n : Int) (a : Nat) :
    (q.storePeer ip n).peerCount (some a) = if ip = some a then n else q.peerCount (some a) := by
  cases ip with
  | none => simp [storePeer]
  | some b =>
    simp only [storePeer, peerCount, ExtTreeMap.getElem?_insert, Std.compare_eq_iff_eq,
      Option.some.injEq]
    by_cases h : b = a <;> simp [h]

theorem peerCount_dropPeer_self (h : 1 ≤ q.peerCount (some a)) :
    (q.dropPeer (some a)).peerCount (some a) = q.peerCount (some a) - 1 := by
  rw [dropPeer]
  by_cases h1 : 1 < q.peerCount (some a)
  · rw [if_pos h1]
    simp [peerCount]
  have heq : q.peerCount (some a) = 1 := by omega
  rw [heq]
  simp [peerCount]

theorem peerCount_dropPeer_of_ne (h : ip ≠ some a) :
    (q.dropPeer ip).peerCount (some a) = q.peerCount (some a) := by
  cases ip with
  | none => rfl
  | some b =>
    have hb : ¬ b = a := by simpa using h
    simp only [dropPeer]
    split
    · simp [peerCount, ExtTreeMap.getElem?_insert, hb]
    split
    · simp [peerCount, ExtTreeMap.getElem?_erase, hb]
    · rfl

theorem storePeer_eq (q : PeerQuota) (ip : PeerIP) (n : Int) :
    ∃ peers, q.storePeer ip n = { q with peers := peers } := by
  cases ip with
  | none => exact ⟨q.peers, rfl⟩
  | some a => exact ⟨_, rfl⟩

theorem dropPeer_eq (q : PeerQuota) (ip : PeerIP) :
    ∃ peers, q.dropPeer ip = { q with peers := peers } := by
  cases ip with
  | none => exact ⟨q.peers, rfl⟩
  | some a =>
    simp only [dropPeer]
    split
    · exact ⟨_, rfl⟩
    split
    · exact ⟨_, rfl⟩
    · exact ⟨q.peers, rfl⟩

/-- An address that is counted is counted at least once. -/
def Positive (q : PeerQuota) : Prop := ∀ (a : Nat) (n : Int), q.peers[a]? = some n → 0 < n

theorem Positive.storePeer (hq : q.Positive) {n : Int} (hn : 0 < n) :
    (q.storePeer ip n).Positive := by
  cases ip with
  | none => exact hq
  | some b => exact forall_insert hq hn

theorem Positive.dropPeer (hq : q.Positive) : (q.dropPeer ip).Positive := by
  cases ip with
  | none => exact hq
  | some b =>
    simp only [PeerQuota.dropPeer]
    split
    · change (q.storePeer (some b) (q.peerCount (some b) - 1)).Positive
      exact hq.storePeer (by omega)
    split
    · exact forall_erase hq b
    · exact hq

theorem Positive.peerCount (hq : q.Positive) (ip : PeerIP) : 0 ≤ q.peerCount ip := by
  cases ip with
  | none => exact le_rfl
  | some a =>
    rw [PeerQuota.peerCount]
    cases ha : q.peers[a]? with
    | none => exact le_rfl
    | some n => exact (hq a n ha).le

theorem Positive.eq_none (hq : q.Positive) (h : q.peerCount (some a) = 0) : q.peers[a]? = none := by
  rw [PeerQuota.peerCount] at h
  cases ha : q.peers[a]? with
  | none => rfl
  | some n =>
    rw [ha, Option.getD_some] at h
    have := hq a n ha
    omega

end PeerQuota

/-! ### What a call contributes -/

namespace QuotaCall

variable {q q' : PeerQuota} {free : Fin quotaShards → Bool} {c c' d : QuotaCall}

/-- To the total. -/
def charge : QuotaCall → Int
  | acquire _ (.store _) | acquire _ (.unlock .ok) | acquire _ (.returned .ok) => 1
  | release _ .returned => -1
  | _ => 0

/-- To the count of an address. -/
def share (ip : PeerIP) : QuotaCall → Int
  | acquire a (.unlock .ok) | acquire a (.returned .ok) => if a = ip then 1 else 0
  | release a .unlock | release a .sub | release a .returned => if a = ip then -1 else 0
  | _ => 0

/-- To the admissions of an address that someone got and has not begun to release. -/
def due (ip : PeerIP) : QuotaCall → Int
  | acquire a (.returned .ok) => if a = ip then 1 else 0
  | release a _ => if a = ip then -1 else 0
  | _ => 0

/-- To all admissions that someone got and has not begun to release. -/
def granted : QuotaCall → Int
  | acquire _ (.returned .ok) => 1
  | release _ _ => -1
  | _ => 0

/-- What `Acquire` has seen of its peer and of the total. -/
def Seen (q : PeerQuota) : QuotaCall → Prop
  | acquire ip (.load cur) | acquire ip (.store cur) =>
    cur = q.peerCount ip ∧ (ip.isSome → 0 < q.maxPeer → cur < q.maxPeer)
  | acquire ip (.cas cur total) =>
    (cur = q.peerCount ip ∧ (ip.isSome → 0 < q.maxPeer → cur < q.maxPeer)) ∧
      (0 < q.maxTotal → total < q.maxTotal)
  | _ => True

theorem due_le_share (ip : PeerIP) (c : QuotaCall) : c.due ip ≤ c.share ip := by
  cases c with
  | acquire a pc =>
    cases pc with
    | unlock r =>
      cases r
      · change 0 ≤ if a = ip then 1 else 0
        split <;> omega
      · exact le_rfl
      · exact le_rfl
    | returned r => cases r <;> exact le_rfl
    | _ => exact le_rfl
  | release a pc =>
    have hle : (if a = ip then -1 else 0) ≤ 0 := by split <;> omega
    cases pc <;> first | exact hle | exact le_rfl
  | peerCount a pc => exact le_rfl

theorem granted_le_charge (c : QuotaCall) : c.granted ≤ c.charge := by
  cases c with
  | acquire a pc =>
    cases pc with
    | store cur => exact zero_le_one
    | unlock r => cases r <;> first | exact le_rfl | exact zero_le_one
    | returned r => cases r <;> exact le_rfl
    | _ => exact le_rfl
  | release a pc => cases pc <;> first | exact le_rfl | exact neg_one_lt_zero.le
  | peerCount a pc => exact le_rfl

/-- A call that has returned contributes the same on every account. -/
theorem settled (h : c.returned = true) :
    c.charge = c.granted ∧ ∀ ip, c.share ip = c.due ip := by
  cases c with
  | acquire a pc =>
    cases pc with
    | returned r => cases r <;> exact ⟨rfl, fun _ => rfl⟩
    | _ => cases h
  | release a pc => cases pc <;> first | exact ⟨rfl, fun _ => rfl⟩ | cases h
  | peerCount a pc => exact ⟨rfl, fun _ => rfl⟩

theorem fresh_spec (h : c.fresh = true) : c.locks = none ∧ (∀ q, c.Seen q) ∧ c.charge = 0 ∧
    ∀ a : Nat, c.share (some a) = 0 := by
  unfold fresh at h
  split at h
  · exact ⟨rfl, fun _ => trivial, rfl, fun _ => rfl⟩
  · exact ⟨rfl, fun _ => trivial, rfl, fun _ => rfl⟩
  · exact ⟨rfl, fun _ => trivial, rfl, fun a => by simp [share]⟩
  · exact ⟨rfl, fun _ => trivial, rfl, fun _ => rfl⟩
  · cases h

/-! ### What a step does -/

variable (h : Step q free c q' c')
include h

theorem Step.max : q'.maxTotal = q.maxTotal ∧ q'.maxPeer = q.maxPeer := by
  cases h with
  | @store ip cur =>
    obtain ⟨peers, heq⟩ := q.storePeer_eq ip (cur + 1)
    rw [heq]
    exact ⟨rfl, rfl⟩
  | @update ip =>
    obtain ⟨peers, heq⟩ := q.dropPeer_eq ip
    rw [heq]
    exact ⟨rfl, rfl⟩
  | _ => exact ⟨rfl, rfl⟩

/-- An invalid address is charged to the total only. -/
theorem Step.peers_none (hip : c.ip = none) : q'.peers = q.peers := by
  cases h with
  | store | update =>
    cases hip
    rfl
  | _ => rfl

theorem Step.due (ip : PeerIP) : c.due ip ≤ c'.due ip := by
  cases h with
  | @leaveAcquire a r =>
    cases r
    · change 0 ≤ if a = ip then 1 else 0
      split <;> omega
    · exact le_rfl
    · exact le_rfl
  | _ => exact le_rfl

/-- A call changes the count of an address under the lock of its shard. -/
theorem Step.peerCount_other (ip : PeerIP)
    (hip : c.locks ≠ some (quotaShard ip)) : q'.peerCount ip = q.peerCount ip := by
  cases ip with
  | none => rfl
  | some a =>
    cases h with
    | @store ip cur =>
      rw [PeerQuota.peerCount_storePeer, if_neg]
      rintro rfl
      exact hip rfl
    | @update ip =>
      refine PeerQuota.peerCount_dropPeer_of_ne ?_
      rintro rfl
      exact hip rfl
    | _ => rfl

theorem Step.seen_other
    (hother : ∀ i, d.locks = some i → c.locks ≠ some i) (hd : d.Seen q) : d.Seen q' := by
  obtain ⟨hmt, hmp⟩ := h.max
  cases d with
  | acquire ip pc =>
    cases pc with
    | load cur | store cur =>
      rw [Seen, h.peerCount_other ip (hother _ rfl), hmp]
      exact hd
    | cas cur total =>
      rw [Seen, h.peerCount_other ip (hother _ rfl), hmp, hmt]
      exact hd
    | _ => trivial
  | _ => trivial

theorem Step.seen (hc : c.Seen q) : c'.Seen q' := by
  cases h with
  | peerRoom hroom =>
    refine ⟨rfl, fun hip hmax => ?_⟩
    by_contra hlt
    exact hroom ⟨hip, hmax, not_lt.mp hlt⟩
  | room hroom => exact ⟨hc, fun hmax => not_le.mp fun hle => hroom ⟨hmax, hle⟩⟩
  | claim | retry => exact hc.1
  | _ => trivial

theorem Step.total : q'.total - c'.charge = q.total - c.charge := by
  cases h with
  | claim | sub =>
    simp only [PeerQuota.setTotal, charge]
    omega
  | @store ip cur =>
    obtain ⟨peers, heq⟩ := q.storePeer_eq ip (cur + 1)
    rw [heq]
    rfl
  | @leaveAcquire ip r => cases r <;> rfl
  | @update ip =>
    obtain ⟨peers, heq⟩ := q.dropPeer_eq ip
    rw [heq]
    rfl
  | _ => rfl

theorem Step.peerCount (hc : c.Seen q) (a : Nat)
    (hlive : c = .release (some a) .update → 1 ≤ q.peerCount (some a)) :
    q'.peerCount (some a) - c'.share (some a) = q.peerCount (some a) - c.share (some a) := by
  cases h with
  | @store ip cur =>
    rw [PeerQuota.peerCount_storePeer]
    simp only [share]
    by_cases hip : ip = some a
    · subst hip
      rw [if_pos rfl, if_pos rfl, hc.1]
      omega
    · rw [if_neg hip, if_neg hip]
  | @leaveAcquire ip r => cases r <;> rfl
  | @update ip =>
    simp only [share]
    by_cases hip : ip = some a
    · subst hip
      rw [PeerQuota.peerCount_dropPeer_self (hlive rfl), if_pos rfl]
      omega
    · rw [PeerQuota.peerCount_dropPeer_of_ne hip, if_neg hip]
  | _ => rfl

theorem Step.positive (hc : c.Seen q) (hq : q.Positive) : q'.Positive := by
  cases h with
  | @store ip cur =>
    refine hq.storePeer ?_
    have hnonneg := hq.peerCount ip
    rw [← hc.1] at hnonneg
    omega
  | update => exact hq.dropPeer
  | _ => exact hq

theorem Step.total_le (hc : c.Seen q) (hmax : 0 < q.maxTotal)
    (hle : q.total ≤ q.maxTotal) : q'.total ≤ q'.maxTotal := by
  cases h with
  | claim => exact hc.2 hmax
  | @store ip cur =>
    obtain ⟨peers, heq⟩ := q.storePeer_eq ip (cur + 1)
    rw [heq]
    exact hle
  | @update ip =>
    obtain ⟨peers, heq⟩ := q.dropPeer_eq ip
    rw [heq]
    exact hle
  | sub =>
    simp only [PeerQuota.setTotal]
    omega
  | _ => exact hle

theorem Step.peerCount_le (hc : c.Seen q) (a : Nat)
    (hlive : c = .release (some a) .update → 1 ≤ q.peerCount (some a)) (hmax : 0 < q.maxPeer)
    (hle : q.peerCount (some a) ≤ q.maxPeer) : q'.peerCount (some a) ≤ q.maxPeer := by
  cases h with
  | @store ip cur =>
    rw [PeerQuota.peerCount_storePeer]
    split
    · rename_i hip
      subst hip
      exact hc.2 rfl hmax
    · exact hle
  | @update ip =>
    by_cases hip : ip = some a
    · subst hip
      rw [PeerQuota.peerCount_dropPeer_self (hlive rfl)]
      omega
    · rwa [PeerQuota.peerCount_dropPeer_of_ne hip]
  | _ => exact hle

end QuotaCall

/-! ### The accounts -/

namespace QuotaCalls

variable {s t : QuotaCalls}

/-- The admissions of an address that are stored and not yet being released. -/
def outstanding (s : QuotaCalls) (ip : PeerIP) : Int := (s.calls.map (QuotaCall.share ip)).sum

/-- How often `Acquire` has returned `QuotaOK` for an address and `Release` has not been
called for it. -/
def unreleased (s : QuotaCalls) (ip : PeerIP) : Int := (s.calls.map (QuotaCall.due ip)).sum

/-- The same for all addresses, the invalid one among them. -/
def admissions (s : QuotaCalls) : Int := (s.calls.map QuotaCall.granted).sum

/-- `Release` is called for an address with a successful `Acquire` to release. -/
def Releasable (s : QuotaCalls) : QuotaAct → Prop
  | .release ip => 0 < s.unreleased ip
  | _ => True

instance (s : QuotaCalls) (a : QuotaAct) : Decidable (s.Releasable a) :=
  match a with
  | .release _ => inferInstanceAs (Decidable (_ < _))
  | .acquire _ => inferInstanceAs (Decidable True)
  | .peerCount _ => inferInstanceAs (Decidable True)
  | .step _ => inferInstanceAs (Decidable True)

structure Accounted (s : QuotaCalls) : Prop where
  exclusive : Exclusive QuotaCall.locks s.calls
  seen : ∀ (n : Nat) (c : QuotaCall), s.calls[n]? = some c → c.Seen s.quota
  unreleased : ∀ ip, 0 ≤ s.unreleased ip
  total : s.quota.total = (s.calls.map QuotaCall.charge).sum
  peerCount : ∀ a : Nat, s.quota.peerCount (some a) = s.outstanding (some a)
  positive : s.quota.Positive
  total_le : 0 < s.quota.maxTotal → s.quota.total ≤ s.quota.maxTotal
  peerCount_le : 0 < s.quota.maxPeer → ∀ a : Nat, s.quota.peerCount (some a) ≤ s.quota.maxPeer

theorem accounted_new (maxTotal maxPeer : Int) : Accounted ⟨.new maxTotal maxPeer, []⟩ where
  exclusive := exclusive_nil _
  seen n c hc := by cases hc
  unreleased _ := le_rfl
  total := rfl
  peerCount _ := rfl
  positive a n ha := by
    simp [PeerQuota.new] at ha
  total_le := le_of_lt
  peerCount_le hmax _ := hmax.le

theorem unreleased_begin (s : QuotaCalls) (c : QuotaCall) (ip : PeerIP) :
    (s.begin c).unreleased ip = s.unreleased ip + c.due ip := by
  rw [unreleased, begin, List.map_append, List.map_singleton, List.sum_append, List.sum_singleton]
  rfl

theorem Accounted.begin (h : Accounted s) {c : QuotaCall} (hc : c.fresh = true)
    (hdue : ∀ ip, 0 ≤ s.unreleased ip + c.due ip) : Accounted (s.begin c) := by
  obtain ⟨hlocks, hseen, hcharge, hshare⟩ := QuotaCall.fresh_spec hc
  refine ⟨h.exclusive.concat hlocks, ?_, ?_, ?_, ?_, h.positive, h.total_le, h.peerCount_le⟩
  · intro n d hd
    rcases getElem?_concat_eq_some.mp hd with hd | ⟨-, rfl⟩
    · exact h.seen n d hd
    · exact hseen _
  · intro ip
    rw [unreleased_begin]
    exact hdue ip
  · rw [QuotaCalls.begin, List.map_append, List.map_singleton, List.sum_append,
      List.sum_singleton, hcharge, add_zero]
    exact h.total
  · intro a
    rw [outstanding, QuotaCalls.begin, List.map_append, List.map_singleton, List.sum_append,
      List.sum_singleton, hshare, add_zero]
    exact h.peerCount a

theorem unreleased_le_outstanding (s : QuotaCalls) (ip : PeerIP) :
    s.unreleased ip ≤ s.outstanding ip :=
  List.sum_le_sum fun c _ => QuotaCall.due_le_share ip c

/-- A `Release` finds what is to be released. -/
theorem Accounted.live (h : Accounted s) {n a : Nat}
    (hc : s.calls[n]? = some (.release (some a) .update)) : 1 ≤ s.quota.peerCount (some a) := by
  have hlt : s.unreleased (some a) < s.outstanding (some a) := by
    refine List.sum_lt_sum _ _ (fun c _ => QuotaCall.due_le_share _ c) ⟨_, List.mem_of_getElem? hc, ?_⟩
    simp [QuotaCall.due, QuotaCall.share]
  have hnonneg := h.unreleased (some a)
  rw [h.peerCount]
  omega

theorem Accounted.call (h : Accounted s) {n : Nat} {c c' : QuotaCall} {q : PeerQuota}
    (hc : s.calls[n]? = some c) (hstep : c.Step s.quota s.free q c') :
    Accounted ⟨q, s.calls.set n c'⟩ := by
  have hseen := h.seen n c hc
  have hlive : ∀ a : Nat, c = .release (some a) .update → 1 ≤ s.quota.peerCount (some a) := by
    rintro a rfl
    exact h.live hc
  obtain ⟨hmt, hmp⟩ := hstep.max
  refine ⟨h.exclusive.set hc ?_, ?_, ?_, ?_, ?_, hstep.positive hseen h.positive, ?_, ?_⟩
  · intro i hi
    exact (hstep.locks i hi).imp_right of_decide_eq_true
  · intro m d hd
    rcases getElem?_set_eq_some hd with ⟨-, rfl⟩ | ⟨hmn, hd⟩
    · exact hstep.seen hseen
    exact hstep.seen_other (fun i hdi hci => hmn (h.exclusive m n d c i hd hc hdi hci))
      (h.seen m d hd)
  · intro ip
    have hsum := sum_map_set (QuotaCall.due ip) hc c'
    have hle := hstep.due ip
    have hnonneg := h.unreleased ip
    simp only [QuotaCalls.unreleased] at hnonneg ⊢
    omega
  · have hsum := sum_map_set QuotaCall.charge hc c'
    have htotal := hstep.total
    have hold := h.total
    dsimp only
    omega
  · intro a
    have hsum := sum_map_set (QuotaCall.share (some a)) hc c'
    have hcount := hstep.peerCount hseen a (hlive a)
    have hold := h.peerCount a
    simp only [outstanding] at hold ⊢
    omega
  · intro hmax
    rw [hmt] at hmax
    exact hstep.total_le hseen hmax (h.total_le hmax)
  · intro hmax a
    rw [hmp] at hmax ⊢
    exact hstep.peerCount_le hseen a (hlive a) hmax (h.peerCount_le hmax a)

theorem Accounted.step {a : QuotaAct} (h : Accounted s) (hok : s.Releasable a)
    (hst : s.step a = some t) : Accounted t := by
  cases step_cases hst with
  | acquire ip | peerCount ip =>
      exact h.begin rfl fun ip' => by simpa [QuotaCall.due] using h.unreleased ip'
  | @release ip pc hfresh =>
    refine h.begin hfresh fun ip' => ?_
    have hnonneg := h.unreleased ip'
    simp only [QuotaCall.due]
    split
    · rename_i heq
      subst heq
      change 0 < s.unreleased ip at hok
      omega
    · omega
  | call hc hstep => exact h.call hc hstep

theorem max_step {a : QuotaAct} (hst : s.step a = some t) :
    t.quota.maxTotal = s.quota.maxTotal ∧ t.quota.maxPeer = s.quota.maxPeer := by
  cases step_cases hst with
  | call _ hstep => exact hstep.max
  | _ => exact ⟨rfl, rfl⟩

theorem accounted_of_reaches {maxTotal maxPeer : Int}
    (h : (quotaCalls maxTotal maxPeer).Reaches Releasable s) :
    Accounted s ∧ s.quota.maxTotal = maxTotal ∧ s.quota.maxPeer = maxPeer := by
  refine h.inv (I := fun s => Accounted s ∧ s.quota.maxTotal = maxTotal ∧
    s.quota.maxPeer = maxPeer) ?_ ?_
  · rintro s rfl
    exact ⟨accounted_new maxTotal maxPeer, rfl, rfl⟩
  · rintro s a t ⟨hacc, hmt, hmp⟩ hok hst
    obtain ⟨hmt', hmp'⟩ := max_step hst
    exact ⟨hacc.step hok hst, hmt'.trans hmt, hmp'.trans hmp⟩

/-! ### All addresses together -/

/-- The admissions are those of the addresses that occur. -/
theorem sum_due (l : List QuotaCall) (ips : Finset PeerIP) (h : ∀ c ∈ l, c.ip ∈ ips) :
    ∑ ip ∈ ips, (l.map (QuotaCall.due ip)).sum = (l.map QuotaCall.granted).sum := by
  induction l with
  | nil => simp
  | cons c l ih =>
    have hone : ∑ ip ∈ ips, c.due ip = c.granted := by
      have hc := h c List.mem_cons_self
      cases c with
      | acquire a pc =>
        cases pc with
        | returned r =>
          cases r with
          | ok => exact (Finset.sum_ite_eq ips a _).trans (if_pos hc)
          | _ => exact Finset.sum_const_zero
        | _ => exact Finset.sum_const_zero
      | release a pc => exact (Finset.sum_ite_eq ips a _).trans (if_pos hc)
      | peerCount a pc => exact Finset.sum_const_zero
    simp only [List.map_cons, List.sum_cons, Finset.sum_add_distrib, hone,
      ih fun d hd => h d (List.mem_cons_of_mem _ hd)]

theorem Accounted.total_nonneg (h : Accounted s) : 0 ≤ s.quota.total := by
  have hdue : 0 ≤ s.admissions := by
    rw [admissions, ← sum_due s.calls (s.calls.map QuotaCall.ip).toFinset
      fun c hc => List.mem_toFinset.mpr (List.mem_map_of_mem hc)]
    exact Finset.sum_nonneg fun ip _ => h.unreleased ip
  have hle : s.admissions ≤ (s.calls.map QuotaCall.charge).sum :=
    List.sum_le_sum fun c _ => QuotaCall.granted_le_charge c
  rw [h.total]
  omega

end QuotaCalls

/-! ### An `Acquire` that is refused -/

namespace QuotaCall

variable {q q' : PeerQuota} {free : Fin quotaShards → Bool} {c c' : QuotaCall}

/-- An `Acquire` that has not claimed a slot. -/
def unclaimed : QuotaCall → Bool
  | acquire _ pc =>
    match pc with
    | .lock | .look | .load _ | .cas _ _ => true
    | .unlock r | .returned r => r ≠ .ok
    | .store _ => false
  | _ => false

theorem Step.unclaimed (h : Step q free c q' c') (hc' : c'.unclaimed = true) :
    c.unclaimed = true ∧ q' = q := by
  cases h with
  | leaveAcquire => exact ⟨hc', rfl⟩
  | _ => first | exact ⟨rfl, rfl⟩ | cases hc'

end QuotaCall

namespace QuotaCalls

variable {s t : QuotaCalls}

theorem length_step {a : QuotaAct} (h : s.step a = some t) : s.calls.length ≤ t.calls.length := by
  cases step_cases h with
  | call _ _ => rw [List.length_set]
  | _ =>
    rw [begin, List.length_append]
    omega

/-- An `Acquire` without a slot had none before, and its own step changed nothing. -/
theorem unclaimed_step {a : QuotaAct} (hst : s.step a = some t) {n : Nat} {c c' : QuotaCall}
    (hc : s.calls[n]? = some c) (hc' : t.calls[n]? = some c') (h : c'.unclaimed = true) :
    c.unclaimed = true ∧ (a = .step n → t.quota = s.quota) := by
  have hsame : s.calls[n]? = some c' → c.unclaimed = true := by
    intro hsame
    rw [hc] at hsame
    cases hsame
    exact h
  have hold : ∀ d, (s.begin d).calls[n]? = some c' → c.unclaimed = true := by
    intro d hd
    rw [begin, List.getElem?_append_left (List.getElem?_eq_some_iff.mp hc).1] at hd
    exact hsame hd
  cases step_cases hst with
  | acquire ip | release _ | peerCount ip => exact ⟨hold _ hc', fun _ => rfl⟩
  | call hd hstep =>
    rcases getElem?_set_eq_some hc' with ⟨rfl, rfl⟩ | ⟨hnm, hc'⟩
    · rw [hc] at hd
      cases hd
      obtain ⟨hcl, hq⟩ := hstep.unclaimed h
      exact ⟨hcl, fun _ => hq⟩
    · exact ⟨hsame hc', fun heq => absurd (by cases heq; rfl) hnm⟩

theorem unclaimed_run {maxTotal maxPeer : Int} {as : List QuotaAct} {n : Nat} {c c' : QuotaCall}
    (hrun : (quotaCalls maxTotal maxPeer).run s as = some t) (hc : s.calls[n]? = some c)
    (hc' : t.calls[n]? = some c') (h : c'.unclaimed = true) : c.unclaimed = true :=
  Machine.run_back_at (p := calls)
    (fun _ _ _ => length_step)
    (fun _ _ _ _ _ hst hc hc' h => (unclaimed_step hst hc hc' h).1) hrun hc hc' h

end QuotaCalls

/-- **The accounts of the quota.**  In every state that any calls can reach, when each
`Release` is for an address with a successful `Acquire` to release: the total is not
negative and within its ceiling; the count of a valid address is that of its outstanding
admissions, which are at least those its callers hold, within its ceiling, and has an
entry only when there are some; an invalid address has no part in the counts; an
`Acquire` that ends refused has changed nothing; and with no call in progress both
dimensions count the admissions that are held. -/
theorem quota_accounting (maxTotal maxPeer : Int) (s : QuotaCalls)
    (h : (quotaCalls maxTotal maxPeer).Reaches QuotaCalls.Releasable s) :
    0 ≤ s.quota.total ∧ (0 < maxTotal → s.quota.total ≤ maxTotal) ∧
    (∀ a : Nat, s.quota.peerCount (some a) = s.outstanding (some a) ∧
      0 ≤ s.unreleased (some a) ∧ s.unreleased (some a) ≤ s.outstanding (some a) ∧
      (0 < maxPeer → s.quota.peerCount (some a) ≤ maxPeer) ∧
      (s.outstanding (some a) = 0 → s.quota.peers[a]? = none)) ∧
    (∀ n c t, s.calls[n]? = some c → c.ip = none → s.step (.step n) = some t →
      t.quota.peers = s.quota.peers) ∧
    (∀ n t as u ip r, s.step (.step n) = some t → (quotaCalls maxTotal maxPeer).run t as = some u →
      u.calls[n]? = some (.acquire ip (.returned r)) → r ≠ .ok → t.quota = s.quota) ∧
    (s.AtRest → s.quota.total = s.admissions ∧
      ∀ a : Nat, s.quota.peerCount (some a) = s.unreleased (some a)) := by
  obtain ⟨hacc, rfl, rfl⟩ := QuotaCalls.accounted_of_reaches h
  refine ⟨hacc.total_nonneg, hacc.total_le, fun a => ⟨hacc.peerCount a, hacc.unreleased _,
    s.unreleased_le_outstanding _, fun hmax => hacc.peerCount_le hmax a, fun hzero => ?_⟩, ?_, ?_,
    fun hrest => ⟨?_, fun a => ?_⟩⟩
  · exact hacc.positive.eq_none ((hacc.peerCount a).trans hzero)
  · intro n c t hc hip hst
    cases QuotaCalls.step_cases hst with
    | call hd hstep =>
      rw [hc] at hd
      cases hd
      exact hstep.peers_none hip
  · intro n t as u ip r hst hrun hu hr
    have hunclaimed : (QuotaCall.acquire ip (.returned r)).unclaimed = true := decide_eq_true hr
    cases QuotaCalls.step_cases hst with
    | call hd hstep =>
      obtain ⟨c', hc'⟩ := getElem?_of_length_le (QuotaCalls.length_step hst) hd
      exact (QuotaCalls.unclaimed_step hst hd hc'
        (QuotaCalls.unclaimed_run hrun hc' hu hunclaimed)).2 rfl
  · rw [hacc.total]
    exact congrArg List.sum (List.map_congr_left fun c hc =>
      (QuotaCall.settled (hrest c hc)).1)
  · rw [hacc.peerCount]
    exact congrArg List.sum (List.map_congr_left fun c hc => (QuotaCall.settled (hrest c hc)).2 _)

/-- Two `Acquire`s of one peer with room for one, and then a `Release`. -/
def refusedThenReleased : List QuotaAct :=
  [QuotaAct.acquire (some 7), .acquire (some 7)] ++ List.replicate 6 (QuotaAct.step 0) ++
    List.replicate 3 (QuotaAct.step 1) ++ QuotaAct.release (some 7) ::
    List.replicate 4 (QuotaAct.step 2)

theorem quota_accounting_refusedThenReleased : ∃ s : QuotaCalls,
    (quotaCalls 5 1).Reaches QuotaCalls.Releasable s ∧
    s.calls = [.acquire (some 7) (.returned .ok), .acquire (some 7) (.returned .peerFull),
      .release (some 7) .returned] ∧ s.quota.total = s.admissions := by
  have hrun : ((quotaCalls 5 1).runIf QuotaCalls.Releasable ⟨.new 5 1, []⟩
      refusedThenReleased).map (fun s => (s.calls, decide s.AtRest)) =
      some ([.acquire (some 7) (.returned .ok), .acquire (some 7) (.returned .peerFull),
        .release (some 7) .returned], true) := by decide +kernel
  obtain ⟨s, hr, heq⟩ := Machine.exists_reaches hrun rfl
  rw [Prod.mk.injEq] at heq
  exact ⟨s, hr, heq.1, ((quota_accounting 5 1 s hr).2.2.2.2.2 (of_decide_eq_true heq.2)).1⟩

end SharkSocket.Shared
