import SharkSocket.Core
import SharkSocket.Lib.Keys
import SharkSocket.Lib.Machine
import SharkSocket.Lib.SlidingWindow
import SharkSocket.Lib.Text

/-!
# `plugin/ratelimit.go`: messages of one peer in a window

`RateLimit` passes a message of a peer if fewer than `rate` were passed within the
last `window`.  It keeps the times of the passed messages for each peer, in 32
shards, and drops old ones when a message of the peer comes in and in a sweep of
everybody's.

`limiter` runs messages of any peers and sweeps at times that do not go back, and
keeps the full list of what was passed.  The stamps a shard holds for a peer are
the recent part of that list (`windowed_of_reaches`), which makes the verdict the
exact one (`exact_sliding_window`).

Times are nanoseconds.  The hash that picks a shard has a random seed, so it is a
parameter here.
-/

namespace SharkSocket.Plugin

open Lib
open Std (ExtTreeMap)

def rateLimitShardCount : Nat := 32

def second : Int := 1000000000

/-! ### The key of a session -/

/-- What a session holds under `rateLimitKeyMeta`. -/
inductive MetaValue
  | text (key : Bytes)
  | other
  deriving DecidableEq, Repr

/-- `remoteAddr` is the text of `RemoteAddr()`; `keepsMeta` says whether `SetMeta`
stores anything. -/
structure Session where
  cached : Option MetaValue
  remoteAddr : Option Bytes
  keepsMeta : Bool
  deriving DecidableEq, Repr

def remoteKey (sess : Session) : Bytes :=
  match sess.remoteAddr with
  | none => ascii "unknown"
  | some addr => (splitHost addr).getD addr

/-- `sessionKey`, with the session after it. -/
def sessionKey : Option Session → Bytes × Option Session
  | none => (ascii "unknown", none)
  | some sess =>
    match sess.cached with
    | some (.text key) => (key, some sess)
    | _ =>
      let key := remoteKey sess
      (key, some (if sess.keepsMeta then { sess with cached := some (.text key) } else sess))

/-! ### The plugin -/

structure RateLimit where
  shards : Fin rateLimitShardCount → ExtTreeMap Bytes (List Int)
  rate : Int
  window : Int

namespace RateLimit

variable (p : RateLimit)

def setLimit (rate window : Int) : RateLimit :=
  { p with
    rate := if rate ≤ 0 then 1 else rate
    window := if window ≤ 0 then second else window }

def new (rate window : Int) : RateLimit := setLimit ⟨fun _ => ∅, 0, 0⟩ rate window

variable (hash : Bytes → UInt64)

def shardFor (key : Bytes) : Fin rateLimitShardCount :=
  ⟨(hash key).toNat % rateLimitShardCount, Nat.mod_lt _ (by decide)⟩

/-- `sh.counters[key]`; a missing entry is the empty list. -/
def counters (key : Bytes) : List Int :=
  (p.shards (shardFor hash key))[key]?.getD []

def setCounters (key : Bytes) (stamps : List Int) : RateLimit :=
  { p with
    shards := Function.update p.shards (shardFor hash key)
      ((p.shards (shardFor hash key)).insert key stamps) }

/-- `OnMessage` once the key is known: whether the message is passed. -/
def takeKey (now : Int) (key : Bytes) : Bool × RateLimit :=
  let stamps := (p.counters hash key).dropWhile (· < now - p.window)
  if p.rate ≤ stamps.length then (false, p.setCounters hash key stamps)
  else (true, p.setCounters hash key (stamps ++ [now]))

def onMessage (now : Int) (sess : Option Session) (data : Bytes) : Except Err Bytes × RateLimit :=
  match p.takeKey hash now (sessionKey sess).1 with
  | (false, p) => (.error .pluginDrop, p)
  | (true, p) => (.ok data, p)

/-- What a sweep leaves of an entry. -/
def sweepEntry (cutoff : Int) (stamps : List Int) : Option (List Int) :=
  match stamps.dropWhile (· < cutoff) with
  | [] => none
  | stamp :: rest => some (stamp :: rest)

def sweep (now : Int) : RateLimit :=
  { p with shards := fun i => (p.shards i).filterMap fun _ => sweepEntry (now - p.window) }

variable {hash} {p : RateLimit} {now : Int} {key k : Bytes}

theorem counters_setCounters (stamps : List Int) : (p.setCounters hash key stamps).counters hash k =
      if key = k then stamps else p.counters hash k := by
  unfold counters setCounters
  dsimp only
  by_cases hk : key = k
  · subst hk
    rw [Function.update_self, ExtTreeMap.getElem?_insert_self, if_pos rfl]
    rfl
  rw [if_neg hk]
  by_cases hs : shardFor hash k = shardFor hash key
  · rw [hs, Function.update_self, getElem?_insert_of_ne hk]
  · rw [Function.update_of_ne hs]

theorem counters_takeKey : (p.takeKey hash now key).2.counters hash k = if key = k then
      (p.counters hash key).dropWhile (· < now - p.window) ++
        (if (p.takeKey hash now key).1 then [now] else []) else p.counters hash k := by
  unfold takeKey
  dsimp only
  split
  · rw [counters_setCounters]
    simp
  rw [counters_setCounters]
  simp

theorem counters_sweep : (p.sweep now).counters hash k =
    (p.counters hash k).dropWhile (· < now - p.window) := by
  unfold counters sweep
  rw [ExtTreeMap.getElem?_filterMap']
  cases (p.shards (shardFor hash k))[k]? with
  | none => rfl
  | some stamps =>
    dsimp only [Option.bind_some, Option.getD_some]
    unfold sweepEntry
    cases stamps.dropWhile (· < now - p.window) <;> rfl

theorem limit_takeKey (hash : Bytes → UInt64) (p : RateLimit) (now : Int) (key : Bytes) :
    (p.takeKey hash now key).2.rate = p.rate ∧ (p.takeKey hash now key).2.window = p.window := by
  unfold takeKey
  dsimp only
  split <;> exact ⟨rfl, rfl⟩

end RateLimit

/-! ### Runs -/

/-- The plugin, the time of its last call, and every message passed so far. -/
structure Limiter where
  plugin : RateLimit
  clock : Int
  passed : List (Bytes × Int)

inductive LimiterCall
  | onMessage (now : Int) (sess : Option Session) (data : Bytes)
  | sweep (now : Int)

def LimiterCall.now : LimiterCall → Int
  | .onMessage now _ _ => now
  | .sweep now => now

namespace Limiter

variable (hash : Bytes → UInt64)

def step (s : Limiter) : LimiterCall → Limiter
  | .onMessage now sess data =>
    match s.plugin.onMessage hash now sess data with
    | (.error _, p) => ⟨p, now, s.passed⟩
    | (.ok _, p) => ⟨p, now, s.passed ++ [((sessionKey sess).1, now)]⟩
  | .sweep now => ⟨s.plugin.sweep now, now, s.passed⟩

/-- When messages of this key were passed. -/
def times (s : Limiter) (k : Bytes) : List Int :=
  (s.passed.filter (·.1 = k)).map Prod.snd

/-- The clock does not go back. -/
def Forward (s : Limiter) (c : LimiterCall) : Prop := s.clock ≤ c.now

instance (s : Limiter) (c : LimiterCall) : Decidable (s.Forward c) :=
  inferInstanceAs (Decidable (_ ≤ _))

end Limiter

def limiter (hash : Bytes → UInt64) (rate window : Int) : Machine Limiter LimiterCall where
  init s := s.plugin = .new rate window ∧ s.passed = []
  step s c := some (s.step hash c)

namespace Limiter

variable {hash : Bytes → UInt64} {s t : Limiter}

/-- What a call does: a message is judged by its key, a sweep only drops stamps. -/
theorem step_onMessage (now : Int) (sess : Option Session) (data : Bytes) :
    s.step hash (.onMessage now sess data) =
      ⟨(s.plugin.takeKey hash now (sessionKey sess).1).2, now,
        s.passed ++ if (s.plugin.takeKey hash now (sessionKey sess).1).1 then
          [((sessionKey sess).1, now)] else []⟩ := by
  dsimp only [step, RateLimit.onMessage]
  rcases s.plugin.takeKey hash now (sessionKey sess).1 with ⟨_ | _, p⟩
  · simp
  · rfl

theorem onMessage_result (now : Int) (sess : Option Session) (data : Bytes) :
    (s.plugin.onMessage hash now sess data).1 =
      if (s.plugin.takeKey hash now (sessionKey sess).1).1 then .ok data else .error .pluginDrop := by
  unfold RateLimit.onMessage
  rcases s.plugin.takeKey hash now (sessionKey sess).1 with ⟨_ | _, p⟩ <;> rfl

theorem times_note (p : RateLimit) (clock now : Int) (pass : Bool) (key k : Bytes) :
    (⟨p, clock, s.passed ++ if pass then [(key, now)] else []⟩ : Limiter).times k =
      s.times k ++ if pass ∧ key = k then [now] else [] := by
  unfold times
  cases pass with
  | false => simp
  | true =>
    by_cases hk : key = k <;> simp [hk]

/-- The stamps of every key are the recent part of what was passed. -/
structure Tracks (hash : Bytes → UInt64) (rate window : Int) (s : Limiter) : Prop where
  sameRate : s.plugin.rate = (RateLimit.new rate window).rate
  sameWindow : s.plugin.window = (RateLimit.new rate window).window
  windowed : ∀ k, Windowed s.plugin.rate.toNat s.plugin.window s.clock (s.times k)
    (s.plugin.counters hash k)

variable {rate window : Int}

variable (h : s.Tracks hash rate window)
include h

theorem Tracks.rate_pos : 0 < s.plugin.rate := by
  rw [h.sameRate]
  dsimp only [RateLimit.new, RateLimit.setLimit]
  split <;> omega

theorem Tracks.window_pos : 0 < s.plugin.window := by
  rw [h.sameWindow]
  dsimp only [RateLimit.new, RateLimit.setLimit]
  split
  · decide
  · omega

/-- **The verdict is the exact one.** -/
theorem Tracks.takeKey_iff {now : Int} (hnow : s.clock ≤ now)
    (k : Bytes) : (s.plugin.takeKey hash now k).1 = true ↔
      (countIn (now - s.plugin.window) now (s.times k) : Int) < s.plugin.rate := by
  rw [← ((h.windowed k).later hnow).length_dropWhile]
  unfold RateLimit.takeKey
  dsimp only
  split
  · rename_i hfull
    simp only [Bool.false_eq_true, false_iff, not_lt]
    exact hfull
  rename_i hroom
  simp only [true_iff]
  exact not_le.mp hroom

theorem Tracks.step_message {now : Int} (hnow : s.clock ≤ now)
    (sess : Option Session) (data : Bytes) :
    (s.step hash (.onMessage now sess data)).Tracks hash rate window := by
  have hlimit := RateLimit.limit_takeKey hash s.plugin now (sessionKey sess).1
  rw [step_onMessage]
  refine ⟨hlimit.1.trans h.sameRate, hlimit.2.trans h.sameWindow, fun k => ?_⟩
  have hk := (h.windowed k).later hnow
  dsimp only
  rw [hlimit.1, hlimit.2, times_note, RateLimit.counters_takeKey]
  by_cases heq : (sessionKey sess).1 = k
  · subst heq
    rw [if_pos rfl]
    by_cases hpass : (s.plugin.takeKey hash now (sessionKey sess).1).1 = true
    · have hroom := (h.takeKey_iff hnow _).mp hpass
      rw [← hk.length_dropWhile] at hroom
      rw [if_pos ⟨hpass, rfl⟩, if_pos hpass]
      exact hk.pass h.window_pos.le (by omega)
    rw [if_neg fun hc => hpass hc.1, if_neg hpass, List.append_nil, List.append_nil]
    exact hk.prune
  · rw [if_neg heq, if_neg fun hc => heq hc.2, List.append_nil]
    exact hk

theorem Tracks.step_sweep {now : Int} (hnow : s.clock ≤ now) :
    (s.step hash (.sweep now)).Tracks hash rate window := by
  refine ⟨h.sameRate, h.sameWindow, fun k => ?_⟩
  dsimp only [step]
  rw [RateLimit.counters_sweep]
  exact ((h.windowed k).later hnow).prune

theorem Tracks.step {c : LimiterCall} (hc : s.Forward c) :
    (s.step hash c).Tracks hash rate window := by
  cases c with
  | onMessage now sess data => exact h.step_message hc sess data
  | sweep now => exact h.step_sweep hc

end Limiter

theorem windowed_of_reaches {hash : Bytes → UInt64} {rate window : Int} {s : Limiter}
    (h : (limiter hash rate window).Reaches Limiter.Forward s) : s.Tracks hash rate window := by
  refine Machine.Reaches.inv ?_ ?_ h
  · rintro s ⟨hplugin, hpassed⟩
    refine ⟨by rw [hplugin], by rw [hplugin], fun k => ?_⟩
    have htimes : s.times k = [] := by
      rw [Limiter.times, hpassed]
      rfl
    have hcounters : s.plugin.counters hash k = [] := by
      rw [hplugin]
      simp [RateLimit.counters, RateLimit.new, RateLimit.setLimit]
    rw [htimes, hcounters]
    exact .start _ _ _
  · intro s c t hs hc hst
    cases hst
    exact hs.step hc

/-- **The limiter is an exact sliding window.**  For every rate and window, and for
messages of any peers and sweeps at times that do not go back: a message is passed
exactly when fewer than `rate` messages of its key were passed in the closed window
that ends now, and dropped otherwise; no closed interval as long as the window holds
more than `rate` passed messages of a key; a sweep or a message of another key changes
no later verdict; and a key has at most `rate` stamps. -/
theorem exact_sliding_window (hash : Bytes → UInt64) (rate window : Int) (s : Limiter)
    (h : (limiter hash rate window).Reaches Limiter.Forward s) :
    s.plugin.rate = (if rate ≤ 0 then 1 else rate) ∧
    s.plugin.window = (if window ≤ 0 then second else window) ∧
    (∀ now sess data, s.clock ≤ now →
      (s.plugin.onMessage hash now sess data).1 =
        if (countIn (now - s.plugin.window) now (s.times (sessionKey sess).1) : Int) <
          s.plugin.rate then .ok data else .error .pluginDrop) ∧
    (∀ k a, (countIn a (a + s.plugin.window) (s.times k) : Int) ≤ s.plugin.rate) ∧
    (∀ c k, s.Forward c → (∀ now sess data, c = .onMessage now sess data →
        (sessionKey sess).1 ≠ k) →
      ∀ now sess data, c.now ≤ now → (sessionKey sess).1 = k →
        ((s.step hash c).plugin.onMessage hash now sess data).1 =
          (s.plugin.onMessage hash now sess data).1) ∧
    ∀ k, ((s.plugin.counters hash k).length : Int) ≤ s.plugin.rate := by
  have hs := windowed_of_reaches h
  have hpos := hs.rate_pos
  have hverdict : ∀ u : Limiter, u.Tracks hash rate window → ∀ now sess data, u.clock ≤ now →
      (u.plugin.onMessage hash now sess data).1 =
        if (countIn (now - u.plugin.window) now (u.times (sessionKey sess).1)) <
          u.plugin.rate then .ok data else .error .pluginDrop := by
    intro u hu now sess data hnow
    rw [Limiter.onMessage_result]
    simp only [hu.takeKey_iff hnow]
  refine ⟨hs.sameRate, hs.sameWindow, hverdict s hs, ?_, ?_, ?_⟩
  · intro k a
    have hle := (hs.windowed k).spaced a
    omega
  · intro c k hc hother now sess data hnow hk
    have ht := hs.step hc
    have hclock : (s.step hash c).clock = c.now := by
      cases c with
      | onMessage now' sess' data' => rw [Limiter.step_onMessage]; rfl
      | sweep now' => rfl
    have htimes : (s.step hash c).times k = s.times k := by
      cases c with
      | onMessage now' sess' data' =>
        have hne := hother now' sess' data' rfl
        rw [Limiter.step_onMessage, Limiter.times_note, if_neg fun hc => hne hc.2, List.append_nil]
      | sweep now' => rfl
    rw [hverdict _ ht now sess data (hclock.trans_le hnow),
      hverdict s hs now sess data (hc.trans hnow), hk, htimes, ht.sameRate, ht.sameWindow,
      hs.sameRate, hs.sameWindow]
  · intro k
    have hle := (hs.windowed k).small
    omega

/-- A session whose key is known already. -/
def known (key : Bytes) : Option Session := some ⟨some (.text key), none, true⟩

/-- Two messages in one window, a sweep, and a third that comes too soon. -/
def thirdTooSoon : List LimiterCall :=
  [.onMessage 0 (known [7]) [1], .onMessage 4 (known [7]) [2], .sweep 9,
    .onMessage 10 (known [7]) [3]]

theorem exact_sliding_window_thirdTooSoon :
    ∃ s, (limiter (fun _ => 0) 2 10).Reaches Limiter.Forward s ∧ s.times [7] = [0, 4] ∧
      (s.plugin.onMessage (fun _ => 0) 11 (known [7]) [4]).1 = .ok [4] := by
  have hrun : (((limiter (fun _ => 0) 2 10).runIf Limiter.Forward ⟨.new 2 10, 0, []⟩
      thirdTooSoon).map fun s => (s.clock, s.times [7], s.plugin.window, s.plugin.rate)) =
      some (10, [0, 4], 10, 2) := by
    decide +kernel
  obtain ⟨s, hreach, hfacts⟩ := Machine.exists_reaches hrun ⟨rfl, rfl⟩
  simp only [Prod.mk.injEq] at hfacts
  obtain ⟨hclock, htimes, hwindow, hrate⟩ := hfacts
  refine ⟨s, hreach, htimes, ?_⟩
  have hverdict := (exact_sliding_window _ 2 10 s hreach).2.2.1 11 (known [7]) [4]
    (by rw [hclock]; decide)
  rw [hverdict, hwindow, hrate]
  change (if (countIn (11 - 10) 11 (s.times [7]) : Int) < 2 then _ else _) = _
  rw [htimes]
  rfl

end SharkSocket.Plugin
