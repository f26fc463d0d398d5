import SharkSocket.Lib.TokenBucket
import SharkSocket.Shared.QuotaCount

/-!
# `shared/acceptor.go`: `Acceptor`

An acceptor admits a connection when the quota has a slot for its peer and the
token bucket a token.  The quota is asked first; when there is no token the slot is
given back.  Rates and the allowance are rational numbers here in place of floats.
A clock reading is a number of nanoseconds.

The bucket is that of `Lib/TokenBucket.lean`: `metered_of_reaches` says so of every
run, and the bound on the accepted connections is the bucket's.
-/

namespace SharkSocket.Shared

open Lib
open Std (ExtTreeMap)

inductive RejectReason
  | ok
  | capacity
  | rate
  | peer
  deriving DecidableEq, Repr

structure Acceptor where
  quota : PeerQuota
  rate : ℚ
  /-- `UnixNano` of the last rate check. -/
  lastCheck : Int
  allowance : ℚ

/-- A clock reading in seconds. -/
def seconds (t : Int) : ℚ := t / 1000000000

namespace Acceptor

/-- `NewAcceptor`, at the clock reading `now`. -/
def new (now maxConns : Int) (acceptRate : ℚ) (maxPerPeer : Int) : Acceptor where
  quota := .new maxConns maxPerPeer
  rate := acceptRate
  lastCheck := now
  allowance := acceptRate

/-- The part of `TryAccept` under the mutex. -/
def takeToken (a : Acceptor) (now : Int) : Bool × Acceptor :=
  let elapsed := seconds (now - a.lastCheck)
  let elapsed := if elapsed < 0 then 0 else elapsed
  let burst := if a.rate < 1 then 1 else a.rate
  let allowance := a.allowance + elapsed * a.rate
  let allowance := if burst < allowance then burst else allowance
  if 1 ≤ allowance then (true, { a with lastCheck := now, allowance := allowance - 1 })
  else (false, { a with lastCheck := now, allowance := allowance })

def tryAccept (a : Acceptor) (now : Int) (peer : PeerIP) : RejectReason × Acceptor :=
  match a.quota.acquire peer with
  | (.full, quota) => (.capacity, { a with quota := quota })
  | (.peerFull, quota) => (.peer, { a with quota := quota })
  | (.ok, quota) =>
    if a.rate ≤ 0 then (.ok, { a with quota := quota })
    else
      match ({ a with quota := quota } : Acceptor).takeToken now with
      | (true, b) => (.ok, b)
      -- release the slot taken above
      | (false, b) => (.rate, { b with quota := b.quota.release peer })

def done (a : Acceptor) (peer : PeerIP) : Acceptor := { a with quota := a.quota.release peer }

end Acceptor

/-! ### The quota -/

namespace PeerQuota

variable (q : PeerQuota) (ip : PeerIP)

/-- Below its ceilings: there is a slot for the peer. -/
def Below : Prop :=
  (0 < q.maxPeer → q.peerCount ip < q.maxPeer) ∧ (0 < q.maxTotal → q.total < q.maxTotal)

instance (q : PeerQuota) (ip : PeerIP) : Decidable (q.Below ip) :=
  inferInstanceAs (Decidable (_ ∧ _))

/-- The quota with one more slot taken. -/
def taken : PeerQuota :=
  (q.setTotal (q.total + 1)).storePeer ip (q.peerCount ip + 1)

theorem acquire_cases : q.acquire ip = (.peerFull, q) ∨ q.acquire ip = (.full, q) ∨
    q.acquire ip = (.ok, q.taken ip) := by
  unfold acquire
  split
  · exact .inl rfl
  split
  · exact .inr (.inl rfl)
  refine .inr (.inr ?_)
  cases ip with
  | none | some a => rfl

theorem release_eq : q.release ip = (q.dropPeer ip).setTotal (q.total - 1) := by
  cases ip with
  | none => rfl
  | some a =>
    simp only [release, dropPeer]
    split
    · rfl
    · split <;> rfl

@[simp] theorem total_taken : (q.taken ip).total = q.total + 1 := by
  cases ip with
  | none | some a => rfl

theorem peerCount_taken (a : Nat) :
    (q.taken ip).peerCount (some a) = q.peerCount (some a) + if ip = some a then 1 else 0 := by
  rw [taken, peerCount_storePeer]
  by_cases h : ip = some a
  · rw [if_pos h, if_pos h, h]
  rw [if_neg h, if_neg h, add_zero]
  rfl

@[simp] theorem total_release : (q.release ip).total = q.total - 1 := rfl

variable {q ip}

theorem acquire_of_below (h : q.Below ip) : q.acquire ip = (.ok, q.taken ip) := by
  have hpeer : ¬ (ip.isSome ∧ 0 < q.maxPeer ∧ q.maxPeer ≤ q.peerCount ip) := by
    rintro ⟨-, hpos, hle⟩
    have := h.1 hpos
    omega
  have htotal : ¬ (0 < q.maxTotal ∧ q.maxTotal ≤ q.total) := by
    rintro ⟨hpos, hle⟩
    have := h.2 hpos
    omega
  unfold acquire
  rw [if_neg hpeer, if_neg htotal]
  cases ip with
  | none | some a => rfl

theorem Positive.taken (h : q.Positive) (ip : PeerIP) : (q.taken ip).Positive := by
  have hcount := h.peerCount ip
  have hset : (q.setTotal (q.total + 1)).Positive := h
  exact hset.storePeer (by omega)

theorem Positive.release (h : q.Positive) (ip : PeerIP) : (q.release ip).Positive := by
  rw [release_eq]
  exact h.dropPeer

theorem peerCount_release_self {a : Nat} (h : 1 ≤ q.peerCount (some a)) :
    (q.release (some a)).peerCount (some a) = q.peerCount (some a) - 1 := by
  rw [release_eq]
  exact peerCount_dropPeer_self h

theorem peerCount_release_of_ne {a : Nat} (h : ip ≠ some a) :
    (q.release ip).peerCount (some a) = q.peerCount (some a) := by
  rw [release_eq]
  exact peerCount_dropPeer_of_ne h

/-- **A slot taken and given back leaves every count as it was.** -/
theorem release_taken (h : q.Positive) (ip ip' : PeerIP) :
    ((q.taken ip).release ip).total = q.total ∧
      ((q.taken ip).release ip).peerCount ip' = q.peerCount ip' := by
  refine ⟨by simp, ?_⟩
  cases ip' with
  | none => rfl
  | some a =>
    by_cases hip : ip = some a
    · subst hip
      have hcount := h.peerCount (some a)
      have htaken := peerCount_taken q (some a) a
      rw [if_pos rfl] at htaken
      rw [peerCount_release_self (by omega), htaken, add_sub_cancel_right]
    · rw [peerCount_release_of_ne hip, peerCount_taken, if_neg hip, add_zero]

/-- The slots of the quota are those of `holders`, one for each occurrence. -/
structure HeldBy (q : PeerQuota) (holders : Multiset PeerIP) : Prop where
  positive : q.Positive
  total : q.total = holders.card
  peers : ∀ a, q.peerCount (some a) = holders.count (some a)

namespace HeldBy

variable {holders : Multiset PeerIP}

theorem new (maxTotal maxPeer : Int) : (PeerQuota.new maxTotal maxPeer).HeldBy 0 := by
  refine ⟨fun a n h => ?_, rfl, fun a => ?_⟩
  · simp [PeerQuota.new] at h
  · simp [PeerQuota.new, peerCount]

theorem taken (h : q.HeldBy holders) (ip : PeerIP) : (q.taken ip).HeldBy (ip ::ₘ holders) := by
  refine ⟨h.positive.taken ip, ?_, fun a => ?_⟩
  · rw [total_taken, h.total, Multiset.card_cons, Nat.cast_succ]
  · rw [peerCount_taken, h.peers, Multiset.count_cons]
    by_cases hip : ip = some a
    · rw [if_pos hip, if_pos hip.symm, Nat.cast_succ]
    · rw [if_neg hip, if_neg (Ne.symm hip), add_zero, add_zero]

theorem release (h : q.HeldBy (ip ::ₘ holders)) : (q.release ip).HeldBy holders := by
  refine ⟨h.positive.release ip, ?_, fun a => ?_⟩
  · rw [total_release, h.total, Multiset.card_cons, Nat.cast_succ, add_sub_cancel_right]
  · have hcount := h.peers a
    by_cases hip : ip = some a
    · subst hip
      rw [Multiset.count_cons_self, Nat.cast_succ] at hcount
      rw [peerCount_release_self (by omega), hcount, add_sub_cancel_right]
    · rw [peerCount_release_of_ne hip, hcount, Multiset.count_cons_of_ne (Ne.symm hip)]

end HeldBy

end PeerQuota

/-! ### What a call does -/

namespace Acceptor

variable {a : Acceptor} {now : Int} {peer : PeerIP}

/-- The allowance at a clock reading, up to date. -/
def level (a : Acceptor) (now : Int) : ℚ :=
  min (max 1 a.rate) (a.allowance + a.rate * (seconds now - seconds a.lastCheck))

theorem seconds_sub (t u : Int) : seconds (t - u) = seconds t - seconds u := by
  unfold seconds
  push_cast
  ring

theorem seconds_le_iff {t u : Int} : seconds t ≤ seconds u ↔ t ≤ u := by
  unfold seconds
  rw [div_le_div_iff_of_pos_right (by norm_num), Int.cast_le]

theorem takeToken_eq (h : a.lastCheck ≤ now) :
    a.takeToken now =
      if 1 ≤ a.level now then (true, { a with lastCheck := now, allowance := a.level now - 1 })
      else (false, { a with lastCheck := now, allowance := a.level now }) := by
  have hforward : ¬ seconds (now - a.lastCheck) < 0 := by
    rw [seconds_sub, not_lt, sub_nonneg]
    exact seconds_le_iff.mpr h
  have hburst : (if a.rate < 1 then 1 else a.rate) = max 1 a.rate := by
    by_cases hr : a.rate < 1
    · rw [if_pos hr, max_eq_left hr.le]
    · rw [if_neg hr, max_eq_right (not_lt.mp hr)]
  have hlevel : (if max 1 a.rate < a.allowance + seconds (now - a.lastCheck) * a.rate
      then max 1 a.rate else a.allowance + seconds (now - a.lastCheck) * a.rate) =
      a.level now := by
    rw [level, seconds_sub, mul_comm a.rate]
    by_cases hfull : max 1 a.rate < a.allowance + (seconds now - seconds a.lastCheck) * a.rate
    · rw [if_pos hfull, min_eq_left hfull.le]
    · rw [if_neg hfull, min_eq_right (not_lt.mp hfull)]
  simp only [takeToken, if_neg hforward, hburst, hlevel]

variable (a now peer) in
/-- What `TryAccept` does when there is a rate: the four answers. -/
inductive Answer : RejectReason × Acceptor → Prop
  | capacity : Answer (.capacity, a)
  | peer : Answer (.peer, a)
  | ok (htoken : 1 ≤ a.level now) : Answer (.ok,
      { a with quota := a.quota.taken peer, lastCheck := now, allowance := a.level now - 1 })
  | rate (htoken : ¬ 1 ≤ a.level now) : Answer (.rate,
      { a with
        quota := (a.quota.taken peer).release peer
        lastCheck := now
        allowance := a.level now })

theorem tryAccept_eq (hrate : 0 < a.rate) (h : a.lastCheck ≤ now)
    (hq : a.quota.acquire peer = (.ok, a.quota.taken peer)) :
    a.tryAccept now peer =
      if 1 ≤ a.level now then (.ok,
        { a with quota := a.quota.taken peer, lastCheck := now, allowance := a.level now - 1 })
      else (.rate,
        { a with
          quota := (a.quota.taken peer).release peer
          lastCheck := now
          allowance := a.level now }) := by
  have htake := takeToken_eq (a := { a with quota := a.quota.taken peer }) h
  have hlevel : ({ a with quota := a.quota.taken peer }).level now = a.level now := rfl
  rw [hlevel] at htake
  unfold tryAccept
  rw [hq]
  dsimp only
  rw [if_neg (not_le.mpr hrate), htake]
  by_cases htoken : 1 ≤ a.level now
  · rw [if_pos htoken, if_pos htoken]
  · rw [if_neg htoken, if_neg htoken]

theorem tryAccept_cases (hrate : 0 < a.rate) (h : a.lastCheck ≤ now)
    {r : RejectReason × Acceptor} (hr : a.tryAccept now peer = r) : Answer a now peer r := by
  subst hr
  rcases a.quota.acquire_cases peer with hq | hq | hq
  · rw [tryAccept, hq]
    exact .peer
  · rw [tryAccept, hq]
    exact .capacity
  rw [tryAccept_eq hrate h hq]
  by_cases htoken : 1 ≤ a.level now
  · rw [if_pos htoken]
    exact .ok htoken
  rw [if_neg htoken]
  exact .rate htoken

theorem tryAccept_of_below (hrate : 0 < a.rate) (h : a.lastCheck ≤ now) (hpeer : a.quota.Below peer)
    (htoken : 1 ≤ a.level now) : (a.tryAccept now peer).1 = .ok := by
  rw [tryAccept_eq hrate h (PeerQuota.acquire_of_below hpeer), if_pos htoken]

theorem quota_takeToken (a : Acceptor) (now : Int) : (a.takeToken now).2.quota = a.quota := by
  unfold takeToken
  extract_lets elapsed forward burst filled allowance
  split <;> rfl

/-- **An admitted connection holds one slot more**, and a rejected one none, whatever the
clock says. -/
theorem heldBy_tryAccept {holders : Multiset PeerIP} (h : a.quota.HeldBy holders) (now : Int)
    (peer : PeerIP) : (a.tryAccept now peer).2.quota.HeldBy
      (if (a.tryAccept now peer).1 = .ok then peer ::ₘ holders else holders) := by
  have htaken := h.taken peer
  rcases a.quota.acquire_cases peer with hq | hq | hq
  · rw [tryAccept, hq]
    exact h
  · rw [tryAccept, hq]
    exact h
  rw [tryAccept, hq]
  dsimp only
  split
  · exact htaken
  have hb := quota_takeToken { a with quota := a.quota.taken peer } now
  split
  · rename_i b heq
    rw [heq] at hb
    rw [hb]
    exact htaken
  rename_i b heq
  rw [heq] at hb
  rw [hb]
  exact htaken.release

end Acceptor

/-! ### Runs -/

inductive AcceptCall
  | tryAccept (now : Int) (peer : PeerIP)
  | done (peer : PeerIP)
  deriving DecidableEq, Repr

/-- An acceptor, the last clock reading and when connections were accepted. -/
structure Accepting where
  acceptor : Acceptor
  clock : Int
  accepted : List Int

namespace Accepting

/-- The clock does not go back. -/
def Forward (x : Accepting) : AcceptCall → Prop
  | .tryAccept now _ => x.clock ≤ now
  | .done _ => True

instance (x : Accepting) : (c : AcceptCall) → Decidable (x.Forward c)
  | .tryAccept now _ => inferInstanceAs (Decidable (x.clock ≤ now))
  | .done _ => inferInstanceAs (Decidable True)

def step (x : Accepting) : AcceptCall → Accepting
  | .tryAccept now peer =>
    let r := x.acceptor.tryAccept now peer
    ⟨r.2, now, if r.1 = .ok then x.accepted ++ [now] else x.accepted⟩
  | .done peer => { x with acceptor := x.acceptor.done peer }

/-- The acceptor's bucket is a token bucket for what was accepted. -/
structure Tracks (rate : ℚ) (x : Accepting) : Prop where
  sameRate : x.acceptor.rate = rate
  checked : x.acceptor.lastCheck ≤ x.clock
  positive : x.acceptor.quota.Positive
  metered : Metered rate (max 1 rate) x.acceptor.allowance (seconds x.acceptor.lastCheck)
    (x.accepted.map seconds)

end Accepting

/-- The acceptors of one configuration, from any moment on. -/
def accepting (maxConns : Int) (rate : ℚ) (maxPerPeer : Int) : Machine Accepting AcceptCall where
  init x := x.acceptor = .new x.clock maxConns rate maxPerPeer ∧ x.accepted = []
  step x c := some (x.step c)

namespace Accepting

variable {rate : ℚ} {x : Accepting}

theorem Tracks.tryAccept (h : x.Tracks rate) (hrate : 0 < rate) {now : Int} (hnow : x.clock ≤ now)
    (peer : PeerIP) : (x.step (.tryAccept now peer)).Tracks rate := by
  have hlast := h.checked.trans hnow
  have hlevel : x.acceptor.level now = min (max 1 rate) (x.acceptor.allowance +
      rate * (seconds now - seconds x.acceptor.lastCheck)) := by
    rw [Acceptor.level, h.sameRate]
  have hfull := h.metered.refill hrate.le (Acceptor.seconds_le_iff.mpr hlast)
  rw [← hlevel] at hfull
  simp only [step]
  generalize hr : x.acceptor.tryAccept now peer = r
  cases Acceptor.tryAccept_cases (by rw [h.sameRate]; exact hrate) hlast hr with
  | capacity | peer => exact ⟨h.sameRate, hlast, h.positive, h.metered⟩
  | ok htoken =>
    refine ⟨h.sameRate, le_rfl, h.positive.taken peer, ?_⟩
    simp only [if_true, List.map_append, List.map_cons, List.map_nil]
    exact hfull.take hrate.le htoken
  | rate htoken => exact ⟨h.sameRate, le_rfl, (h.positive.taken peer).release peer, hfull⟩

theorem Tracks.step (h : x.Tracks rate) (hrate : 0 < rate) {c : AcceptCall} (hc : x.Forward c) :
    (x.step c).Tracks rate := by
  cases c with
  | tryAccept now peer => exact h.tryAccept hrate hc peer
  | done peer => exact ⟨h.sameRate, h.checked, h.positive.release peer, h.metered⟩

end Accepting

theorem metered_of_reaches {maxConns maxPerPeer : Int} {rate : ℚ} (hrate : 0 < rate) {x : Accepting}
    (h : (accepting maxConns rate maxPerPeer).Reaches Accepting.Forward x) : x.Tracks rate := by
  refine Machine.Reaches.inv ?_ ?_ h
  · rintro ⟨a, clock, accepted⟩ ⟨ha, haccepted⟩
    dsimp only at ha haccepted
    subst ha haccepted
    refine ⟨rfl, le_rfl, fun ip n hn => ?_, ?_⟩
    · simp [Acceptor.new, PeerQuota.new] at hn
    · exact .start hrate.le hrate.le (le_max_right 1 rate) _
  · intro x c t hx hc hst
    cases hst
    exact hx.step hrate hc

/-- **The accept rate.**  Whatever calls are made at times that do not go back: an
interval of `t - s` seconds holds at most `max 1 r + r * (t - s)` accepted connections;
a refusal for capacity or for the peer changes nothing at all; a refusal for the rate
leaves every count of the quota; and a peer below its ceilings is accepted when the
last rate check is `1 / r` seconds ago. -/
theorem accept_rate_bound (maxConns maxPerPeer : Int) (r : ℚ) (hr : 0 < r) (x : Accepting)
    (h : (accepting maxConns r maxPerPeer).Reaches Accepting.Forward x) :
    (∀ s t, s ≤ t → (countIn s t (x.accepted.map seconds) : ℚ) ≤ max 1 r + r * (t - s)) ∧
    ∀ now peer, x.clock ≤ now →
      ((x.acceptor.tryAccept now peer).1 = .capacity ∨ (x.acceptor.tryAccept now peer).1 = .peer →
        (x.acceptor.tryAccept now peer).2 = x.acceptor) ∧
      ((x.acceptor.tryAccept now peer).1 = .rate →
        (x.acceptor.tryAccept now peer).2.quota.total = x.acceptor.quota.total ∧
        ∀ ip, (x.acceptor.tryAccept now peer).2.quota.peerCount ip =
          x.acceptor.quota.peerCount ip) ∧
      (x.acceptor.quota.Below peer → 1 / r ≤ seconds now - seconds x.acceptor.lastCheck →
        (x.acceptor.tryAccept now peer).1 = .ok) := by
  have hx := metered_of_reaches hr h
  refine ⟨hx.metered.bounded, fun now peer hnow => ?_⟩
  have hlast := hx.checked.trans hnow
  have hrate : 0 < x.acceptor.rate := by
    rw [hx.sameRate]
    exact hr
  refine ⟨?_, ?_, ?_⟩
  · intro hrefused
    generalize ha : x.acceptor.tryAccept now peer = a at hrefused ⊢
    cases Acceptor.tryAccept_cases hrate hlast ha with
    | capacity | peer => rfl
    | ok _ | rate _ => simp at hrefused
  · intro hrefused
    generalize ha : x.acceptor.tryAccept now peer = a at hrefused ⊢
    cases Acceptor.tryAccept_cases hrate hlast ha with
    | capacity | peer | ok _ => cases hrefused
    | rate _ =>
      have hback := PeerQuota.release_taken hx.positive peer
      exact ⟨(hback none).1, fun ip => (hback ip).2⟩
  · intro hpeer hwait
    refine Acceptor.tryAccept_of_below hrate hlast hpeer ?_
    rw [Acceptor.level, hx.sameRate]
    exact hx.metered.one_le (le_max_left 1 r) hr hwait

/-- One connection every two seconds: the first has to wait, the next is refused. -/
def slowRate : List AcceptCall :=
  [.tryAccept 0 (some 7), .tryAccept 1000000000 (some 7), .tryAccept 1500000000 none]

theorem accept_rate_bound_slowRate : ∃ x,
    (accepting 10 (1 / 2) 3).Reaches Accepting.Forward x ∧ x.accepted = [1000000000] ∧
      (x.acceptor.tryAccept 3500000000 (some 7)).1 = .ok ∧
      ∀ s t, s ≤ t → (countIn s t (x.accepted.map seconds) : ℚ) ≤
        max 1 (1 / 2) + 1 / 2 * (t - s) := by
  have hrun : (((accepting 10 (1 / 2) 3).runIf Accepting.Forward
      ⟨.new 0 10 (1 / 2) 3, 0, []⟩ slowRate).map fun x =>
        (x.clock, x.accepted, x.acceptor.lastCheck, decide (x.acceptor.quota.Below (some 7)))) =
      some (1500000000, [1000000000], 1500000000, true) := by
    decide +kernel
  obtain ⟨x, hreach, hfacts⟩ := Machine.exists_reaches hrun ⟨rfl, rfl⟩
  simp only [Prod.mk.injEq] at hfacts
  obtain ⟨hclock, haccepted, hlast, hbelow⟩ := hfacts
  have hbound := accept_rate_bound 10 3 (1 / 2) (by norm_num) x hreach
  refine ⟨x, hreach, haccepted, ?_, hbound.1⟩
  refine (hbound.2 3500000000 (some 7) (by rw [hclock]; decide)).2.2 ?_ ?_
  · exact of_decide_eq_true hbelow
  · rw [hlast, seconds, seconds]
    norm_num

end SharkSocket.Shared
