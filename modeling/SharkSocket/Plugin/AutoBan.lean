import SharkSocket.Lib.Pool
import SharkSocket.Plugin.RateLimit

/-!
# `plugin/autoban.go`: addresses with too many messages

`AutoBan` counts the messages of a remote address.  The message that reaches the
threshold is dropped, its session is closed and the address is banned for half an
hour.  `OnAccept` turns a banned address away; `OnMessage` does not look at the ban
and starts to count from zero.

`gate` runs any number of sessions: their `OnAccept` and `OnMessage` calls, sweeps and
calls of `Banned`, at times that do not go back, with a log of the answers.

* `Held`: what is known of an address from the message that banned it until the ban
  ends;
* `banned_until_expiry`: until then `OnAccept` refuses the address, and of its messages
  every `threshold`-th is dropped.
-/

namespace SharkSocket.Plugin

open Lib
open Std (ExtTreeMap)

structure AutoBanCount where
  count : Int
  last : Int
  deriving DecidableEq, Repr

structure AutoBan where
  threshold : Int
  banDuration : Int
  counts : ExtTreeMap Bytes AutoBanCount
  banned : ExtTreeMap Bytes Int

def halfHour : Int := 30 * 60 * second

/-- `remoteKey`, also for a nil session. -/
def remoteKeyOf (sess : Option Session) : Bytes := sess.elim (ascii "unknown") remoteKey

def normalizeBanKey (addr : Bytes) : Bytes :=
  if addr = [] then ascii "unknown" else (splitHost addr).getD addr

namespace AutoBan

variable (p : AutoBan)

def new (threshold : Int) : AutoBan where
  threshold := if threshold ≤ 0 then 3 else threshold
  banDuration := halfHour
  counts := ∅
  banned := ∅

def sweep (now : Int) : AutoBan :=
  { p with
    banned := p.banned.filter fun _ expiry => expiry ≥ now
    counts := p.counts.filter fun _ c => now - c.last ≤ p.banDuration }

/-- The count of an address, 0 without an entry. -/
def countOf (key : Bytes) : Int := (p.counts[key]?.getD ⟨0, 0⟩).count

/-- What `Record` does under the lock; `last` and `now` are the two times it reads. -/
def recordKey (last now : Int) (key : Bytes) : Bool × AutoBan :=
  let c : AutoBanCount := ⟨p.countOf key + 1, last⟩
  let counts := p.counts.insert key c
  if p.threshold ≤ c.count then
    (true, { p with
      banned := p.banned.insert key (now + p.banDuration)
      counts := counts.erase key })
  else (false, { p with counts := counts })

/-- `OnMessage`; when it returns an error it has also closed the session. -/
def onMessage (last now : Int) (sess : Option Session) (data : Bytes) :
    Except Err Bytes × AutoBan :=
  match p.recordKey last now (sessionKey sess).1 with
  | (true, p) => (.error .pluginDrop, p)
  | (false, p) => (.ok data, p)

def onAccept (now : Int) (sess : Option Session) : Option Err × AutoBan :=
  match p.banned[remoteKeyOf sess]? with
  | none => (none, p)
  | some expiry =>
    if now < expiry then (some .pluginBlock, p)
    else (none, { p with banned := p.banned.erase (remoteKeyOf sess) })

def isBanned (now : Int) (addr : Bytes) : Bool × AutoBan :=
  match p.banned[normalizeBanKey addr]? with
  | none => (false, p)
  | some expiry =>
    if expiry < now then (false, { p with banned := p.banned.erase (normalizeBanKey addr) })
    else (true, p)

theorem threshold_new_pos (threshold : Int) : 0 < (new threshold).threshold := by
  show 0 < if threshold ≤ 0 then 3 else threshold
  split <;> omega

end AutoBan

/-! ### Runs -/

/-- A session with its state. -/
structure BanClient where
  sess : Session
  state : SessionState
  deriving DecidableEq, Repr

/-- The answer of `OnAccept` or `OnMessage` for a session with this address; a message
that bans it has the end of the ban. -/
inductive BanEvent
  | accept (key : Bytes) (now : Int) (answer : Option Err)
  | message (key : Bytes) (now : Int) (answer : Except Err Bytes) (ban : Option Int)
  deriving DecidableEq

structure Gate where
  plugin : AutoBan
  clock : Int
  clients : List BanClient
  log : List BanEvent

inductive GateCall
  | connect (remoteAddr : Option Bytes) (keepsMeta : Bool)
  | onAccept (n : Nat) (now : Int)
  | onMessage (n : Nat) (last now : Int) (data : Bytes)
  | sweep (now : Int)
  | isBanned (now : Int) (addr : Bytes)

namespace Gate

def step (s : Gate) : GateCall → Option Gate
  | .connect remoteAddr keepsMeta =>
    some { s with clients := s.clients ++ [⟨⟨none, remoteAddr, keepsMeta⟩, .active⟩] }
  | .onAccept n now =>
    s.clients[n]?.map fun c =>
      let r := s.plugin.onAccept now (some c.sess)
      { s with plugin := r.2, clock := now, log := s.log ++ [.accept (remoteKey c.sess) now r.1] }
  | .onMessage n last now data =>
    s.clients[n]?.map fun c =>
      let r := s.plugin.onMessage last now (some c.sess) data
      let key := remoteKey c.sess
      let sess := (sessionKey (some c.sess)).2.getD c.sess
      match r with
      | (.error e, p) => ⟨p, now, s.clients.set n ⟨sess, .closed⟩,
          s.log ++ [.message key last (.error e) p.banned[key]?]⟩
      | (.ok data, p) => ⟨p, now, s.clients.set n ⟨sess, c.state⟩,
          s.log ++ [.message key last (.ok data) none]⟩
  | .sweep now => some { s with plugin := s.plugin.sweep now, clock := now }
  | .isBanned now addr =>
    some { s with plugin := (s.plugin.isBanned now addr).2, clock := now }

/-- The clock does not go back. -/
def Forward (s : Gate) : GateCall → Prop
  | .connect _ _ => True
  | .onAccept _ now | .sweep now | .isBanned now _ => s.clock ≤ now
  | .onMessage _ last now _ => s.clock ≤ last ∧ last ≤ now

instance (s : Gate) (c : GateCall) : Decidable (s.Forward c) := by
  cases c <;> unfold Forward <;> infer_instance

end Gate

def gate (threshold : Int) : Machine Gate GateCall where
  init s := s.plugin = .new threshold ∧ s.clients = [] ∧ s.log = []
  step := Gate.step

def BanEvent.isMessage (key : Bytes) : BanEvent → Bool
  | .message k _ _ _ => k = key
  | .accept _ _ _ => false

/-- How many messages of the address there are. -/
def messagesOf (key : Bytes) (log : List BanEvent) : Nat := log.countP (BanEvent.isMessage key)

theorem messagesOf_concat (key : Bytes) (log : List BanEvent) (ev : BanEvent) :
    messagesOf key (log ++ [ev]) = messagesOf key log + if ev.isMessage key then 1 else 0 := by
  simp [messagesOf, List.countP_append, List.countP_singleton]

/-! ### One address -/

namespace AutoBan

variable {p : AutoBan} {last now : Int} {key k : Bytes}

theorem getElem?_counts_recordKey : (p.recordKey last now key).2.counts[k]? = if key = k then
      if p.threshold ≤ p.countOf key + 1 then none else some ⟨p.countOf key + 1, last⟩
    else p.counts[k]? := by
  unfold recordKey
  dsimp only
  by_cases hk : key = k
  · subst hk
    split <;> simp
  split
  · simp [ExtTreeMap.getElem?_erase, ExtTreeMap.getElem?_insert, hk]
  · simp [ExtTreeMap.getElem?_insert, hk]

theorem getElem?_banned_recordKey : (p.recordKey last now key).2.banned[k]? =
    if key = k ∧ p.threshold ≤ p.countOf key + 1 then some (now + p.banDuration)
    else p.banned[k]? := by
  unfold recordKey
  dsimp only
  split
  · rename_i hfull
    by_cases hk : key = k
    · subst hk
      rw [if_pos ⟨rfl, hfull⟩]
      simp
    · simp [ExtTreeMap.getElem?_insert, hk]
  rename_i hroom
  rw [if_neg fun h => hroom h.2]

theorem recordKey_fst : (p.recordKey last now key).1 = decide (p.threshold ≤ p.countOf key + 1) := by
  unfold recordKey
  dsimp only
  split
  · rename_i hfull
    exact (decide_eq_true hfull).symm
  rename_i hroom
  exact (decide_eq_false hroom).symm

theorem limits_recordKey : (p.recordKey last now key).2.threshold = p.threshold ∧
    (p.recordKey last now key).2.banDuration = p.banDuration := by
  unfold recordKey
  dsimp only
  split <;> exact ⟨rfl, rfl⟩

variable {sess : Option Session} {addr : Bytes} {e : Int}

theorem limits_onAccept : (p.onAccept now sess).2.threshold = p.threshold ∧
    (p.onAccept now sess).2.banDuration = p.banDuration := by
  unfold onAccept
  split
  · exact ⟨rfl, rfl⟩
  · split <;> exact ⟨rfl, rfl⟩

theorem limits_isBanned : (p.isBanned now addr).2.threshold = p.threshold ∧
    (p.isBanned now addr).2.banDuration = p.banDuration := by
  unfold isBanned
  split
  · exact ⟨rfl, rfl⟩
  · split <;> exact ⟨rfl, rfl⟩

/-- A ban that has not ended stays through everything but a new ban. -/
theorem banned_sweep (h : p.banned[k]? = some e) (hnow : now ≤ e) :
    (p.sweep now).banned[k]? = some e := by
  have hfilter := ExtTreeMap.getElem?_filter' (t := p.banned) (k := k)
    (f := fun _ expiry => decide (expiry ≥ now))
  rw [h] at hfilter
  exact hfilter.trans (if_pos (decide_eq_true hnow))

theorem banned_onAccept (h : p.banned[k]? = some e) (hnow : now < e) :
    (p.onAccept now sess).2.banned[k]? = some e := by
  unfold onAccept
  split
  · exact h
  rename_i expiry hexpiry
  split
  · exact h
  rename_i hended
  have hne : remoteKeyOf sess ≠ k := by
    intro heq
    rw [heq, h] at hexpiry
    cases hexpiry
    exact hended hnow
  simp [ExtTreeMap.getElem?_erase, hne, h]

theorem banned_isBanned (h : p.banned[k]? = some e) (hnow : now ≤ e) :
    (p.isBanned now addr).2.banned[k]? = some e := by
  unfold isBanned
  split
  · exact h
  rename_i expiry hexpiry
  split
  · have hne : normalizeBanKey addr ≠ k := by
      intro heq
      rw [heq, h] at hexpiry
      cases hexpiry
      omega
    simp [ExtTreeMap.getElem?_erase, hne, h]
  · exact h

theorem counts_onAccept : (p.onAccept now sess).2.counts = p.counts := by
  unfold onAccept
  split
  · rfl
  · split <;> rfl

theorem counts_isBanned : (p.isBanned now addr).2.counts = p.counts := by
  unfold isBanned
  split
  · rfl
  · split <;> rfl

/-- A recent count stays through a sweep. -/
theorem counts_sweep (h : ∀ c, p.counts[k]? = some c → now - c.last ≤ p.banDuration) :
    (p.sweep now).counts[k]? = p.counts[k]? := by
  simp only [sweep, ExtTreeMap.getElem?_filter']
  cases hc : p.counts[k]? with
  | none => rfl
  | some c =>
    rw [Option.filter_eq_some_iff]
    exact ⟨rfl, decide_eq_true (h c hc)⟩

/-- The answer to a session of a banned address. -/
theorem onAccept_banned (h : p.banned[remoteKeyOf sess]? = some e) (hnow : now < e) :
    (p.onAccept now sess).1 = some .pluginBlock := by
  unfold onAccept
  rw [h]
  dsimp only
  rw [if_pos hnow]

end AutoBan

/-- One more message brings a count that runs from 0 below `n` to `n` or not. -/
theorem emod_succ {m n : Int} (hn : 0 < n) :
    (m + 1) % n = if n ≤ m % n + 1 then 0 else m % n + 1 := by
  have hlt := Int.emod_lt_of_pos m hn
  have hnonneg := Int.emod_nonneg m hn.ne'
  rw [← Int.emod_add_emod]
  split
  · have hend : m % n + 1 = n := by omega
    rw [hend, Int.emod_self]
  · exact Int.emod_eq_of_lt (by omega) (by omega)

theorem dvd_succ_iff {m n : Int} (hn : 0 < n) : n ∣ m + 1 ↔ n ≤ m % n + 1 := by
  have hnonneg := Int.emod_nonneg m hn.ne'
  rw [Int.dvd_iff_emod_eq_zero, emod_succ hn]
  split
  · rename_i hfull
    simp [hfull]
  rename_i hroom
  omega

/-- What is known of an address after the message that banned it until `e`: `after` is
the log since then. -/
structure Held (threshold duration : Int) (key : Bytes) (e : Int) (p : AutoBan) (clock : Int)
    (after : List BanEvent) : Prop where
  recent : e ≤ clock + duration
  banned : clock < e → ∃ e', e ≤ e' ∧ p.banned[key]? = some e'
  counted : clock < e → p.countOf key = messagesOf key after % threshold
  fresh : clock < e → ∀ c, p.counts[key]? = some c → e ≤ c.last + duration
  accepts : ∀ now answer, .accept key now answer ∈ after → now < e → answer = some .pluginBlock
  messages : ∀ l now answer ban m, after = l ++ .message key now answer ban :: m → now < e →
    (answer = .error .pluginDrop ↔ threshold ∣ (messagesOf key l + 1 : Int))

namespace Held

variable {threshold duration e clock : Int} {key : Bytes} {p q : AutoBan} {after : List BanEvent}

variable (h : Held threshold duration key e p clock after)
include h

/-- A call at a later time that keeps the ban and the count. -/
theorem later {now : Int} (hnow : clock ≤ now)
    (hbanned : now < e → ∀ e', e ≤ e' → p.banned[key]? = some e' → q.banned[key]? = some e')
    (hcounts : now < e → q.counts[key]? = p.counts[key]?) :
    Held threshold duration key e q now after where
  recent := by
    have hrecent := h.recent
    omega
  banned := by
    intro hlt
    obtain ⟨e', he, hb⟩ := h.banned (by omega)
    exact ⟨e', he, hbanned hlt e' he hb⟩
  counted := by
    intro hlt
    rw [AutoBan.countOf, hcounts hlt]
    exact h.counted (by omega)
  fresh := by
    intro hlt c hc
    rw [hcounts hlt] at hc
    exact h.fresh (by omega) c hc
  accepts := h.accepts
  messages := h.messages

/-- An event that is not a message of the address. -/
theorem note {ev : BanEvent} (hother : ev.isMessage key = false)
    (haccept : ∀ now answer, ev = .accept key now answer → now < e → answer = some .pluginBlock) :
    Held threshold duration key e p clock (after ++ [ev]) where
  recent := h.recent
  banned := h.banned
  counted := by
    intro hlt
    rw [messagesOf_concat, hother]
    exact h.counted hlt
  fresh := h.fresh
  accepts := by
    intro now answer hmem hlt
    rcases List.mem_append.mp hmem with hmem | hmem
    · exact h.accepts now answer hmem hlt
    · exact haccept now answer (List.mem_singleton.mp hmem).symm hlt
  messages := by
    intro l now answer ban m heq hlt
    rcases split_concat heq with ⟨-, rfl, -⟩ | ⟨m', -, hold⟩
    · simp [BanEvent.isMessage] at hother
    · exact h.messages l now answer ban m' hold hlt

/-- A message of the address. -/
theorem message (hpos : 0 < threshold) (hthreshold : p.threshold = threshold)
    (hduration : p.banDuration = duration) {last now : Int} (hlast : clock ≤ last)
    (hnow : last ≤ now) {answer : Except Err Bytes} {ban : Option Int}
    (hanswer : answer = .error .pluginDrop ↔ p.threshold ≤ p.countOf key + 1) :
    Held threshold duration key e (p.recordKey last now key).2 now
      (after ++ [.message key last answer ban]) where
  recent := by
    have hrecent := h.recent
    omega
  banned := by
    intro hlt
    obtain ⟨e', he, hb⟩ := h.banned (by omega)
    rw [AutoBan.getElem?_banned_recordKey]
    split
    · have hrecent := h.recent
      exact ⟨_, by omega, rfl⟩
    · exact ⟨e', he, hb⟩
  counted := by
    intro hlt
    have hcount := h.counted (by omega)
    rw [messagesOf_concat, AutoBan.countOf, AutoBan.getElem?_counts_recordKey, hthreshold, hcount]
    simp only [BanEvent.isMessage, decide_true, if_true]
    rw [Nat.cast_add, Nat.cast_one, emod_succ hpos]
    split <;> rfl
  fresh := by
    intro hlt c hc
    rw [AutoBan.getElem?_counts_recordKey, if_pos rfl] at hc
    split at hc
    · cases hc
    cases hc
    have hrecent := h.recent
    show e ≤ last + duration
    omega
  accepts := by
    intro t err hmem hlt
    rcases List.mem_append.mp hmem with hmem | hmem
    · exact h.accepts t err hmem hlt
    · cases List.mem_singleton.mp hmem
  messages := by
    intro l t err b m heq hlt
    rcases split_concat heq with ⟨rfl, hev, -⟩ | ⟨m', -, hold⟩
    · cases hev
      rw [hanswer, hthreshold, h.counted (by omega), dvd_succ_iff hpos]
    · exact h.messages l t err b m' hold hlt

end Held

/-! ### All addresses -/

/-- Nobody else writes the entry that caches the key of a session. -/
def Session.KeyCached (sess : Session) : Prop :=
  sess.cached = none ∨ sess.cached = some (.text (remoteKey sess))

theorem Session.KeyCached.key {sess : Session} (h : sess.KeyCached) :
    (sessionKey (some sess)).1 = remoteKey sess := by
  rcases h with h | h <;> simp only [sessionKey, h]

theorem Session.KeyCached.after {sess : Session} (h : sess.KeyCached) :
    ((sessionKey (some sess)).2.getD sess).KeyCached := by
  rcases h with h | h
  · simp only [sessionKey, h, Option.getD_some]
    split
    · exact .inr rfl
    · exact .inl h
  simp only [sessionKey, h, Option.getD_some]
  exact .inr h

namespace Gate

variable {s t : Gate} {threshold : Int}

structure Guards (threshold : Int) (s : Gate) : Prop where
  sameThreshold : s.plugin.threshold = (AutoBan.new threshold).threshold
  sameDuration : s.plugin.banDuration = halfHour
  keys : ∀ c ∈ s.clients, c.sess.KeyCached
  held : ∀ before key now answer e after,
    s.log = before ++ .message key now answer (some e) :: after →
      Held (AutoBan.new threshold).threshold halfHour key e s.plugin s.clock after

variable {n : Nat}

/-- `OnMessage` on a session, in terms of `Record` on its address. -/
theorem step_onMessage {c : BanClient} (hc : s.clients[n]? = some c) (hkey : c.sess.KeyCached)
    (last now : Int) (data : Bytes) : ∃ answer ban state, s.step (.onMessage n last now data) = some
      ⟨(s.plugin.recordKey last now (remoteKey c.sess)).2, now,
        s.clients.set n ⟨(sessionKey (some c.sess)).2.getD c.sess, state⟩,
        s.log ++ [.message (remoteKey c.sess) last answer ban]⟩ ∧ (answer = .error .pluginDrop ↔
        s.plugin.threshold ≤ s.plugin.countOf (remoteKey c.sess) + 1) ∧
      ∀ e, ban = some e → e = now + s.plugin.banDuration ∧
        s.plugin.threshold ≤ s.plugin.countOf (remoteKey c.sess) + 1 := by
  simp only [step, hc, Option.map_some, AutoBan.onMessage, hkey.key]
  have hfst := @AutoBan.recordKey_fst s.plugin last now (remoteKey c.sess)
  have hban := @AutoBan.getElem?_banned_recordKey s.plugin last now (remoteKey c.sess)
    (remoteKey c.sess)
  generalize s.plugin.recordKey last now (remoteKey c.sess) = r at hfst hban
  obtain ⟨_ | _, p⟩ := r
  · have hroom := of_decide_eq_false hfst.symm
    exact ⟨.ok data, none, c.state, rfl, by simp [hroom], nofun⟩
  have hfull := of_decide_eq_true hfst.symm
  rw [if_pos ⟨rfl, hfull⟩] at hban
  refine ⟨.error .pluginDrop, p.banned[remoteKey c.sess]?, .closed, rfl, by simp [hfull], ?_⟩
  intro e he
  rw [hban] at he
  cases he
  exact ⟨rfl, hfull⟩

namespace Guards

variable {now : Int}

variable (h : s.Guards threshold)
include h

/-- A call that neither bans nor lifts a ban before its end. -/
theorem quiet {p : AutoBan} (hnow : s.clock ≤ now)
    (hlimits : p.threshold = s.plugin.threshold ∧ p.banDuration = s.plugin.banDuration)
    (hbanned : ∀ (key : Bytes) (e : Int), now < e →
      s.plugin.banned[key]? = some e → p.banned[key]? = some e)
    (hcounts : ∀ (key : Bytes) (e : Int), now < e →
      (∀ c, s.plugin.counts[key]? = some c → e ≤ c.last + halfHour) →
        p.counts[key]? = s.plugin.counts[key]?) :
    Guards threshold ⟨p, now, s.clients, s.log⟩ where
  sameThreshold := hlimits.1.trans h.sameThreshold
  sameDuration := hlimits.2.trans h.sameDuration
  keys := h.keys
  held := by
    intro before key t answer e after hlog
    have hheld := h.held before key t answer e after hlog
    refine hheld.later hnow ?_ ?_
    · intro hlt e' he hb
      exact hbanned key e' (lt_of_lt_of_le hlt he) hb
    · intro hlt
      exact hcounts key e hlt (hheld.fresh (lt_of_le_of_lt hnow hlt))

theorem onAccept (hnow : s.clock ≤ now)
    (hs : s.step (.onAccept n now) = some t) : t.Guards threshold := by
  simp only [step, Option.map_eq_some_iff] at hs
  obtain ⟨c, hc, rfl⟩ := hs
  have hquiet : Guards threshold ⟨(s.plugin.onAccept now (some c.sess)).2, now, s.clients, s.log⟩ :=
    h.quiet hnow AutoBan.limits_onAccept
      (fun key e hlt hb => AutoBan.banned_onAccept hb hlt)
      (fun key e hlt _ => by rw [AutoBan.counts_onAccept])
  refine ⟨hquiet.sameThreshold, hquiet.sameDuration, h.keys, ?_⟩
  intro before key now' answer e after hlog
  rcases split_concat hlog with ⟨-, hev, -⟩ | ⟨after', rfl, hold⟩
  · cases hev
  refine (hquiet.held before key now' answer e after' hold).note rfl ?_
  intro t' err hev hlt
  cases hev
  obtain ⟨e', he, hb⟩ :=
    (h.held before _ now' answer e after' hold).banned (lt_of_le_of_lt hnow hlt)
  exact AutoBan.onAccept_banned hb (by omega)

theorem onMessage {last : Int} {data : Bytes} (hlast : s.clock ≤ last)
    (hnow : last ≤ now) (hs : s.step (.onMessage n last now data) = some t) :
    t.Guards threshold := by
  cases hc : s.clients[n]? with
  | none => simp [step, hc] at hs
  | some c =>
    have hkey := h.keys c (List.mem_of_getElem? hc)
    obtain ⟨answer, ban, state, hstep, hanswer, hban⟩ := step_onMessage hc hkey last now data
    rw [hstep] at hs
    cases hs
    have hlimits := @AutoBan.limits_recordKey s.plugin last now (remoteKey c.sess)
    refine ⟨hlimits.1.trans h.sameThreshold, hlimits.2.trans h.sameDuration, ?_, ?_⟩
    · exact forall_mem_set h.keys hkey.after
    · intro before key now' answer' e after hlog
      rcases split_concat hlog with ⟨-, hev, rfl⟩ | ⟨after', rfl, hold⟩
      · -- the message that bans the address
        cases hev
        obtain ⟨rfl, hfull⟩ := hban e rfl
        rw [h.sameDuration]
        refine ⟨le_rfl, fun _ => ?_, fun _ => ?_, fun _ c hc => ?_, nofun, ?_⟩
        · rw [AutoBan.getElem?_banned_recordKey, if_pos ⟨rfl, hfull⟩, h.sameDuration]
          exact ⟨_, le_rfl, rfl⟩
        · rw [AutoBan.countOf, AutoBan.getElem?_counts_recordKey, if_pos hfull]
          simp [messagesOf]
        · rw [AutoBan.getElem?_counts_recordKey, if_pos rfl, if_pos hfull] at hc
          cases hc
        · intro l _ _ _ m hnil
          cases l <;> cases hnil
      · have hheld := h.held before key now' answer' e after' hold
        by_cases hsame : remoteKey c.sess = key
        · subst hsame
          exact hheld.message (AutoBan.threshold_new_pos threshold) h.sameThreshold h.sameDuration
            hlast hnow hanswer
        refine (hheld.later (hlast.trans hnow) ?_ ?_).note ?_ nofun
        · intro _ e' _ hb
          rw [AutoBan.getElem?_banned_recordKey, if_neg fun hk => hsame hk.1]
          exact hb
        · intro _
          rw [AutoBan.getElem?_counts_recordKey, if_neg hsame]
        · simp [BanEvent.isMessage, hsame]

theorem step {c : GateCall} (hc : s.Forward c) (hs : s.step c = some t) : t.Guards threshold := by
  cases c with
  | connect remoteAddr keepsMeta =>
    cases hs
    exact ⟨h.sameThreshold, h.sameDuration, forall_mem_concat h.keys (.inl rfl), h.held⟩
  | onAccept n now => exact h.onAccept hc hs
  | onMessage n last now data => exact h.onMessage hc.1 hc.2 hs
  | sweep now =>
    cases hs
    refine h.quiet hc ⟨rfl, rfl⟩ (fun key e hlt hb => AutoBan.banned_sweep hb hlt.le) ?_
    intro key e hlt hfresh
    refine AutoBan.counts_sweep fun c hc => ?_
    have hlast := hfresh c hc
    rw [h.sameDuration]
    omega
  | isBanned now addr =>
    cases hs
    exact h.quiet hc AutoBan.limits_isBanned (fun key e hlt hb => AutoBan.banned_isBanned hb hlt.le)
      (fun key e hlt _ => by rw [AutoBan.counts_isBanned])

end Guards

end Gate

theorem guards_of_reaches {threshold : Int} {s : Gate}
    (h : (gate threshold).Reaches Gate.Forward s) : s.Guards threshold := by
  refine Machine.Reaches.inv ?_ ?_ h
  · rintro s ⟨hplugin, hclients, hlog⟩
    refine ⟨by rw [hplugin], by rw [hplugin]; rfl, ?_, ?_⟩
    · intro c hc
      rw [hclients] at hc
      cases hc
    · intro before key now answer e after heq
      rw [hlog] at heq
      cases before <;> cases heq
  · intro s c t hs hok hst
    exact hs.step hok hst

/-- **What a ban does until it ends.**  `OnAccept` refuses every session of the address.
`OnMessage` drops every `threshold`-th of its messages, counted from the ban over all its
sessions, and passes the others; so it drops all of them when the threshold is 1. -/
theorem banned_until_expiry (threshold : Int) (s : Gate)
    (h : (gate threshold).Reaches Gate.Forward s) (before after : List BanEvent) (key : Bytes)
    (time : Int) (dropped : Except Err Bytes) (e : Int)
    (hlog : s.log = before ++ .message key time dropped (some e) :: after) :
    (∀ now answer, .accept key now answer ∈ after → now < e → answer = some .pluginBlock) ∧
    (∀ l now answer ban m, after = l ++ .message key now answer ban :: m → now < e →
      (answer = .error .pluginDrop ↔
        (AutoBan.new threshold).threshold ∣ (messagesOf key l + 1 : Int))) ∧
    ((AutoBan.new threshold).threshold = 1 → ∀ now answer ban,
      .message key now answer ban ∈ after → now < e → answer = .error .pluginDrop) := by
  have hheld := (guards_of_reaches h).held before key time dropped e after hlog
  refine ⟨hheld.accepts, hheld.messages, ?_⟩
  intro hone now answer ban hmem hlt
  obtain ⟨l, m, hsplit⟩ := List.append_of_mem hmem
  rw [hheld.messages l now answer ban m hsplit hlt, hone]
  exact one_dvd _

def addrOf (port : String) : Option Bytes := some (ascii "10.0.0.7:" ++ ascii port)

/-- Two sessions of one address; the first message bans it at threshold 1. -/
def bannedAtOnce : List GateCall :=
  [.connect (addrOf "1000") true, .connect (addrOf "2000") true, .onAccept 0 0, .onAccept 1 0,
    .onMessage 0 5 6 [1], .onMessage 1 7 8 [2], .sweep 9, .onAccept 0 10]

def freshGate (threshold : Int) : Gate := ⟨.new threshold, 0, [], []⟩

theorem banned_until_expiry_bannedAtOnce :
    ∃ (s : Gate) (before after : List BanEvent) (answer : Except Err Bytes),
      (gate 1).Reaches Gate.Forward s ∧
      s.log = before ++ BanEvent.message (ascii "10.0.0.7") 5 answer (some (6 + halfHour)) :: after ∧
      messagesOf (ascii "10.0.0.7") after = 1 ∧
      (∀ now answer, BanEvent.accept (ascii "10.0.0.7") now answer ∈ after → now < 6 + halfHour →
        answer = some .pluginBlock) ∧
      ∀ now answer ban, BanEvent.message (ascii "10.0.0.7") now answer ban ∈ after → now < 6 + halfHour →
        answer = .error .pluginDrop := by
  have hrun : ((gate 1).runIf Gate.Forward (freshGate 1) bannedAtOnce).map Gate.log = some
      ([BanEvent.accept (ascii "10.0.0.7") 0 none, BanEvent.accept (ascii "10.0.0.7") 0 none] ++
        BanEvent.message (ascii "10.0.0.7") 5 (.error .pluginDrop) (some (6 + halfHour)) ::
        [BanEvent.message (ascii "10.0.0.7") 7 (.error .pluginDrop) (some (8 + halfHour)),
          BanEvent.accept (ascii "10.0.0.7") 10 (some .pluginBlock)]) := by decide +kernel
  obtain ⟨s, hreach, hlog⟩ := Machine.exists_reaches hrun ⟨rfl, rfl, rfl⟩
  have hban := banned_until_expiry 1 s hreach _ _ _ _ _ _ hlog
  exact ⟨s, _, _, _, hreach, hlog, by decide, hban.1, hban.2.2 rfl⟩

/-- The second session has been open since before the ban. -/
def bannedBesideOpen : List GateCall :=
  [.connect (addrOf "1000") true, .connect (addrOf "2000") true, .onAccept 0 0, .onAccept 1 0,
    .onMessage 0 1 1 [1], .onMessage 0 2 2 [2], .onMessage 0 3 3 [3], .onMessage 1 4 4 [4]]

/-- **A banned address is heard**: with the default threshold the message of another
session of the address is passed, half an hour before the ban ends. -/
theorem message_passed_while_banned :
    ∃ (s : Gate) (before after : List BanEvent) (answer : Except Err Bytes),
      (gate 3).Reaches Gate.Forward s ∧
      s.log = before ++ BanEvent.message (ascii "10.0.0.7") 3 answer (some (3 + halfHour)) :: after ∧
      BanEvent.message (ascii "10.0.0.7") 4 (.ok [4]) none ∈ after ∧ (4 : Int) < 3 + halfHour := by
  have hrun : ((gate 3).runIf Gate.Forward (freshGate 3) bannedBesideOpen).map Gate.log = some
      ([BanEvent.accept (ascii "10.0.0.7") 0 none, BanEvent.accept (ascii "10.0.0.7") 0 none,
        BanEvent.message (ascii "10.0.0.7") 1 (.ok [1]) none,
        BanEvent.message (ascii "10.0.0.7") 2 (.ok [2]) none] ++
        BanEvent.message (ascii "10.0.0.7") 3 (.error .pluginDrop) (some (3 + halfHour)) ::
        [BanEvent.message (ascii "10.0.0.7") 4 (.ok [4]) none]) := by decide +kernel
  obtain ⟨s, hreach, hlog⟩ := Machine.exists_reaches hrun ⟨rfl, rfl, rfl⟩
  exact ⟨s, _, _, _, hreach, hlog, List.mem_singleton_self _, by decide⟩

end SharkSocket.Plugin
