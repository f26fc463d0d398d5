import SharkSocket.Coap.AtMostOnce
import SharkSocket.Lib.Machine

/-!
# The dedup table and `EXCHANGE_LIFETIME`

`seenCleanupLoop` empties the dedup table every five minutes, whatever the age
of the entries.  A peer may repeat a request for 247 seconds, so a repetition
can come before or after a clear of the table.

`mem_seen_iff` says what the table holds, `runs_iff` which requests are run, and
`atMostOnce_iff` when two runs of one exchange are less than 247 seconds apart.
-/

namespace SharkSocket.Coap

open SharkSocket.Runtime (SessionManager)
open SharkSocket.Shared (PeerQuota)
open Std (ExtTreeMap)

def exchangeLifetime : Int := 247 * second

def seenCleanupInterval : Int := 300 * second

/-- A run of the server from its start at time 0.  Inputs come in the order of
their times, and the table is cleared at every multiple of the interval that the
run passes, and at no other time. -/
structure TimedRun where
  inputs : List TimedInput
  started : ∀ i ∈ inputs, 0 ≤ i.1
  ordered : inputs.Pairwise (fun a b => a.1 ≤ b.1)
  clears : ∀ i ∈ inputs, i.2.isClear = true → ∃ n : Nat, 0 < n ∧ i.1 = n * seenCleanupInterval
  ticks : ∀ n : Nat, 0 < n → (∃ i ∈ inputs, n * seenCleanupInterval < i.1) →
    ∃ i ∈ inputs, i.2.isClear = true ∧ i.1 = n * seenCleanupInterval

section

variable (cfg : Config) (s : Server)

/-- No confirmable request with key `k` came in `pre` after its last clear. -/
def FirstSinceClear (pre : List TimedInput) (k : ExchangeKey) : Prop :=
  ∀ l b m, pre = l ++ b :: m → (∀ c ∈ m, c.2.isClear = false) → ¬ (recordAt cfg s l b).Requests cfg k

theorem firstSinceClear_concat (pre : List TimedInput) (b : TimedInput) (k : ExchangeKey) :
    FirstSinceClear cfg s (pre ++ [b]) k ↔ ¬ (recordAt cfg s pre b).Requests cfg k ∧
        (b.2.isClear = false → FirstSinceClear cfg s pre k) := by
  constructor
  · intro h
    refine ⟨h pre b [] rfl (by simp), ?_⟩
    rintro hb l c m rfl hm
    refine h l c (m ++ [b]) (by simp) ?_
    intro d hd
    rcases List.mem_append.mp hd with hd | hd
    · exact hm d hd
    rw [List.mem_singleton.mp hd]
    exact hb
  · rintro ⟨hb, hpre⟩ l c m hlist hm
    rcases Lib.split_concat hlist with ⟨rfl, rfl, rfl⟩ | ⟨m', rfl, rfl⟩
    · exact hb
    · exact hpre (hm b (by simp)) l c m' rfl (fun e he => hm e (by simp [he]))

variable {s}

/-- The table holds the keys requested since it was last cleared. -/
theorem mem_seen_iff (hs : s.seen = ∅) (k : ExchangeKey) : ∀ (pre : List TimedInput),
    k ∈ (stateAfter cfg s pre).seen ↔ ¬ FirstSinceClear cfg s pre k := by
  intro pre
  induction pre using List.reverseRecOn with
  | nil =>
    refine iff_of_false ?_ (not_not.mpr ?_)
    · rw [stateAfter, List.foldl_nil, hs]
      exact ExtTreeMap.not_mem_empty
    · intro l b m h
      simp at h
  | append_singleton pre b ih =>
    rw [stateAfter_concat, firstSinceClear_concat]
    cases hb : b.2.isClear with
    | true =>
      cases (recordAt cfg s pre b).served cfg with
      | clear _ hseen _ hm =>
        rw [hseen]
        refine iff_of_false ExtTreeMap.not_mem_empty (not_not.mpr ⟨?_, fun h => by cases h⟩)
        rintro ⟨msg, hm', -⟩
        rw [hm] at hm'
        cases hm'
      | other hi | duplicate hi | fresh hi => exact absurd (hi.symm.trans hb) (by decide)
    | false =>
      rw [Record.mem_after cfg _ hb k]
      have hbefore : (recordAt cfg s pre b).before = stateAfter cfg s pre := rfl
      tauto

/-- **Which requests are run.** -/
theorem runs_iff (hs : s.seen = ∅) (pre : List TimedInput) (i : TimedInput) (k : ExchangeKey) :
    (recordAt cfg s pre i).Runs cfg k ↔
      (recordAt cfg s pre i).RequestsWhole cfg k ∧ FirstSinceClear cfg s pre k := by
  have hbefore : (recordAt cfg s pre i).before = stateAfter cfg s pre := rfl
  rw [Record.runs_iff_requestsWhole, hbefore, mem_seen_iff cfg hs k pre, not_not]

end

namespace TimedRun

variable (cfg : Config) (s : Server) (run : TimedRun)

/-- Of two confirmable requests with one key less than `exchangeLifetime` apart,
at most one is run. -/
def AtMostOnce : Prop :=
  ∀ k pre i mid j post, run.inputs = pre ++ i :: mid ++ j :: post →
    (recordAt cfg s pre i).Requests cfg k → (recordAt cfg s (pre ++ i :: mid) j).Requests cfg k →
    j.1 - i.1 < exchangeLifetime →
    ¬ ((recordAt cfg s pre i).Runs cfg k ∧ (recordAt cfg s (pre ++ i :: mid) j).Runs cfg k)

/-- Two requests with one key that are each the first of it since the table was
last cleared, and carry no Block1, are at least `exchangeLifetime` apart. -/
def Spaced : Prop :=
  ∀ k pre i mid j post, run.inputs = pre ++ i :: mid ++ j :: post →
    (recordAt cfg s pre i).RequestsWhole cfg k → FirstSinceClear cfg s pre k →
    (recordAt cfg s (pre ++ i :: mid) j).RequestsWhole cfg k →
    FirstSinceClear cfg s (pre ++ i :: mid) k → exchangeLifetime ≤ j.1 - i.1

end TimedRun

/-- **When at most once holds.**  A clear of the table between a request and its
repetition makes the repetition a first request, so the guarantee is exactly
that no peer repeats a request across a clear within its lifetime. -/
theorem atMostOnce_iff (cfg : Config) (manager : SessionManager) (quota : Option PeerQuota)
    (run : TimedRun) :
    run.AtMostOnce cfg (.new manager quota) ↔ run.Spaced cfg (.new manager quota) := by
  have hs : (Server.new manager quota).seen = ∅ := rfl
  constructor
  · intro h k pre i mid j post hrun hi hfi hj hfj
    by_contra hlt
    refine h k pre i mid j post hrun (hi.requests cfg) (hj.requests cfg) (not_le.mp hlt) ⟨?_, ?_⟩
    · exact (runs_iff cfg hs pre i k).mpr ⟨hi, hfi⟩
    · exact (runs_iff cfg hs _ j k).mpr ⟨hj, hfj⟩
  · rintro h k pre i mid j post hrun - - hlt ⟨hi, hj⟩
    rw [runs_iff cfg hs] at hi hj
    exact absurd (h k pre i mid j post hrun hi.1 hi.2 hj.1 hj.2) (not_le.mpr hlt)

/-! ### A request before and after a clear -/

/-- A GET one second before the first clear, and again one second after it. -/
def acrossClear : TimedRun where
  inputs := [(299 * second, getSeven), (300 * second, .clearSeen), (301 * second, getSeven)]
  started := by
    intro i hi
    simp only [List.mem_cons, List.not_mem_nil, or_false] at hi
    rcases hi with rfl | rfl | rfl <;> decide
  ordered := by
    simp only [List.pairwise_cons, List.mem_cons, List.not_mem_nil, or_false]
    refine ⟨?_, ?_, by simp⟩
    · rintro b (rfl | rfl) <;> decide
    · rintro b rfl
      decide
  clears := by
    intro i hi hc
    simp only [List.mem_cons, List.not_mem_nil, or_false] at hi
    rcases hi with rfl | rfl | rfl
    · cases hc
    · exact ⟨1, by decide, by decide⟩
    · cases hc
  ticks := by
    rintro n hn ⟨i, hi, hlt⟩
    have hmax : i.1 ≤ 301 * second := by
      simp only [List.mem_cons, List.not_mem_nil, or_false] at hi
      rcases hi with rfl | rfl | rfl <;> decide
    have h1 : n = 1 := by
      simp only [seenCleanupInterval, second] at hlt hmax
      omega
    subst h1
    exact ⟨(300 * second, .clearSeen), by simp, rfl, by decide⟩

/-- **A request and its repetition two seconds later both run.** -/
theorem acrossClear_runs_twice :
    ¬ acrossClear.AtMostOnce responderConfig freshServer := by
  have h1 : (recordAt responderConfig freshServer [] (299 * second, getSeven)).Runs responderConfig
      keySeven := Or.inl (by decide +kernel)
  have h2 : (recordAt responderConfig freshServer
      [(299 * second, getSeven), (300 * second, .clearSeen)] (301 * second, getSeven)).Runs
      responderConfig keySeven := Or.inl (by decide +kernel)
  intro h
  exact h keySeven [] _ [(300 * second, .clearSeen)] _ [] rfl (h1.requests responderConfig)
    (h2.requests responderConfig) (by decide) ⟨h1, h2⟩

end SharkSocket.Coap
