import SharkSocket.Infra.MessageLog
import SharkSocket.Lib.Machine

/-!
# What a message log replays

A log is opened on an empty bucket of a store that never fails, and then appended to
and pruned in any order.  A message survives these calls when no `Prune` after its
`Append` had a larger bound.  A bound given before a message is appended does not
concern it (`later_message_replayed`).

The contents of the bucket are the surviving messages, each under its number
(`Holds`).  `Replay` sorts the keys as texts, which is the order of the numbers, so
that it delivers the surviving messages in order (`replay_exact`).
-/

namespace SharkSocket.Infra

open Lib

variable {σ : Type}

inductive LogCall
  | append (data : Bytes)
  | prune (beforeSeq : UInt64)
  deriving DecidableEq, Repr

namespace LogCall

def isAppend : LogCall → Bool
  | append _ => true
  | prune _ => false

def perform (S : Store σ) (log : MessageLog) : LogCall → StoreM σ MessageLog
  | append data => do
    let (_, log) ← log.append S data
    return log
  | prune beforeSeq => do
    log.prune S beforeSeq
    return log

end LogCall

/-- The log after it was opened and the calls were made. -/
def openAndCall (S : Store σ) (bucket : String) (calls : List LogCall) : StoreM σ MessageLog := do
  let log ← newMessageLog S bucket
  calls.foldlM (LogCall.perform S) log

def appends (calls : List LogCall) : Nat := calls.countP LogCall.isAppend

/-- Message `n` was appended with the given data, and no later `Prune` had a bound
above it. -/
def Survives (calls : List LogCall) (n : UInt64) (data : Bytes) : Prop :=
  ∃ before after, calls = before ++ .append data :: after ∧
    n = UInt64.ofNat (appends before + 1) ∧ ∀ b, .prune b ∈ after → b ≤ n

theorem appends_concat_append (calls : List LogCall) (data : Bytes) :
    appends (calls ++ [.append data]) = appends calls + 1 := by
  simp [appends, LogCall.isAppend]

theorem appends_concat_prune (calls : List LogCall) (b : UInt64) :
    appends (calls ++ [.prune b]) = appends calls := by
  simp [appends, LogCall.isAppend]

theorem not_survives_nil (n : UInt64) (data : Bytes) : ¬ Survives [] n data := by
  rintro ⟨before, after, h, -⟩
  simp at h

variable {calls : List LogCall} {data : Bytes} {b n : UInt64}

theorem survives_concat_append {new : Bytes} : Survives (calls ++ [.append new]) n data ↔
      Survives calls n data ∨ n = UInt64.ofNat (appends calls + 1) ∧ data = new := by
  constructor
  · rintro ⟨before, after, h, hn, hlate⟩
    rcases split_concat h with ⟨rfl, he, -⟩ | ⟨after', rfl, hcalls⟩
    · cases he
      exact .inr ⟨hn, rfl⟩
    · exact .inl ⟨before, after', hcalls, hn, fun b hb => hlate b (List.mem_append_left _ hb)⟩
  · rintro (⟨before, after, rfl, hn, hlate⟩ | ⟨hn, rfl⟩)
    · refine ⟨before, after ++ [.append new], by simp, hn, fun b hb => hlate b ?_⟩
      simpa using hb
    · exact ⟨calls, [], rfl, hn, fun b hb => (by cases hb)⟩

theorem survives_concat_prune :
    Survives (calls ++ [.prune b]) n data ↔ Survives calls n data ∧ b ≤ n := by
  constructor
  · rintro ⟨before, after, h, hn, hlate⟩
    rcases split_concat h with ⟨-, he, -⟩ | ⟨after', rfl, hcalls⟩
    · cases he
    exact ⟨⟨before, after', hcalls, hn, fun b hb => hlate b (List.mem_append_left _ hb)⟩,
      hlate b (List.mem_append_right _ (List.mem_singleton_self _))⟩
  · rintro ⟨⟨before, after, rfl, hn, hlate⟩, hb⟩
    refine ⟨before, after ++ [.prune b], by simp, hn, fun b' hb' => ?_⟩
    rcases List.mem_append.mp hb' with hb' | hb'
    · exact hlate b' hb'
    cases List.mem_singleton.mp hb'
    exact hb

/-- A surviving message is one of those appended so far. -/
theorem Survives.le_appends (h : Survives calls n data) : n.toNat ≤ appends calls := by
  obtain ⟨before, after, rfl, rfl, -⟩ := h
  have happ : appends (before ++ .append data :: after) = appends before + 1 + appends after := by
    rw [appends, List.countP_append, List.countP_cons_of_pos rfl, ← appends, ← appends]
    omega
  rw [happ]
  exact (Nat.mod_le _ _).trans (Nat.le_add_right _ _)

/-! ### The contents of the bucket -/

/-- The bucket holds the surviving messages and nothing else. -/
structure Holds (S : MapStore σ) (bucket : String) (calls : List LogCall) (log : MessageLog)
    (s : σ) : Prop where
  opened : log.bucket = bucket
  next : log.next = UInt64.ofNat (appends calls + 1)
  contents : ∀ k data, S.contents s bucket k = some data ↔
    ∃ n, k = seqKey n ∧ Survives calls n data

section Calls

variable {S : MapStore σ} {bucket : String} {calls : List LogCall} {log : MessageLog} {s t : σ}

theorem openAndCall_concat (S : Store σ) (calls : List LogCall) (c : LogCall) :
    openAndCall S bucket (calls ++ [c]) =
      openAndCall S bucket calls >>= fun log => c.perform S log := by
  simp only [openAndCall, bind_assoc, List.foldlM_append, List.foldlM_cons, List.foldlM_nil,
    bind_pure]

section Reliable

variable (hS : S.Reliable)

include hS

theorem newMessageLog_succeeds (bucket : String) (s : σ) :
    ∃ log t, exec (newMessageLog S.toStore bucket) s = (.ok log, t) := by
  obtain ⟨keys, t, hl⟩ := hS.list bucket s
  exact ⟨_, t, exec_bind_ok (exec_adaptError_ok hl)⟩

theorem append_succeeds (log : MessageLog) (data : Bytes) (s : σ) :
    ∃ seq log' t, exec (log.append S.toStore data) s = (.ok (seq, log'), t) := by
  obtain ⟨t, hs⟩ := hS.save log.bucket (seqKey log.next) data s
  exact ⟨_, _, t, exec_bind_ok (exec_adaptError_ok hs)⟩

theorem deleteEach_succeeds (bucket : String) (keys : List Bytes) :
    ∀ s, ∃ t, exec (MessageLog.deleteEach S.toStore bucket keys) s = (.ok (), t) := by
  induction keys with
  | nil => exact fun s => ⟨s, rfl⟩
  | cons key keys ih =>
    intro s
    obtain ⟨u, hd⟩ := hS.delete bucket key s
    obtain ⟨t, hrest⟩ := ih u
    exact ⟨t, (exec_bind_ok hd).trans hrest⟩

theorem deleteKeys_succeeds (bucket : String) (keys : List Bytes) (s : σ) :
    ∃ t, exec (MessageLog.deleteKeys S.toStore bucket keys) s = (.ok (), t) := by
  unfold MessageLog.deleteKeys
  split
  · exact ⟨s, rfl⟩
  split
  · rename_i del hdel
    exact hS.batch del hdel bucket keys s
  · exact deleteEach_succeeds hS bucket keys s

theorem prune_succeeds (log : MessageLog) (b : UInt64) (s : σ) :
    ∃ t, exec (log.prune S.toStore b) s = (.ok (), t) := by
  obtain ⟨keys, u, hl⟩ := hS.list log.bucket s
  obtain ⟨t, hd⟩ := deleteKeys_succeeds hS log.bucket (MessageLog.toDelete keys b) u
  exact ⟨t, (exec_bind_ok hl).trans hd⟩

end Reliable

theorem Holds.append (h : Holds S bucket calls log s) (hfew : appends calls + 1 < 2 ^ 64)
    {seq : UInt64} {log' : MessageLog}
    (happ : exec (log.append S.toStore data) s = (.ok (seq, log'), t)) :
    Holds S bucket (calls ++ [.append data]) log' t := by
  obtain ⟨-, rfl, hc⟩ := append_ok happ
  refine ⟨h.opened, ?_, fun k v => ?_⟩
  · rw [h.next, appends_concat_append]
    exact (UInt64.ofNat_add _ 1).symm
  · -- the new number is above every number so far
    have hnew : ∀ d, ¬ Survives calls log.next d := by
      intro d hd
      have := hd.le_appends
      rw [h.next, UInt64.toNat_ofNat', Nat.mod_eq_of_lt hfew] at this
      omega
    rw [hc, Contents.put, h.opened]
    split
    · rename_i heq
      obtain ⟨-, rfl⟩ := heq
      constructor
      · intro hv
        cases hv
        exact ⟨_, rfl, survives_concat_append.mpr (.inr ⟨h.next, rfl⟩)⟩
      · rintro ⟨n, hn, hs⟩
        cases seqKey_inj hn
        rcases survives_concat_append.mp hs with hs | ⟨-, rfl⟩
        · exact absurd hs (hnew v)
        · rfl
    · rename_i hne
      rw [h.contents]
      constructor
      · rintro ⟨n, rfl, hs⟩
        exact ⟨n, rfl, survives_concat_append.mpr (.inl hs)⟩
      · rintro ⟨n, rfl, hs⟩
        rcases survives_concat_append.mp hs with hs | ⟨hn, -⟩
        · exact ⟨n, rfl, hs⟩
        rw [hn, ← h.next] at hne
        exact absurd ⟨rfl, rfl⟩ hne

theorem Holds.prune (h : Holds S bucket calls log s)
    (hp : exec (log.prune S.toStore b) s = (.ok (), t)) :
    Holds S bucket (calls ++ [.prune b]) log t := by
  obtain ⟨gone, hgone, hall⟩ := prune_drops hp
  refine ⟨h.opened, by rw [h.next, appends_concat_prune], fun k v => ?_⟩
  rw [hgone, Contents.drop_apply, h.opened]
  have hmem := hall rfl k
  rw [h.opened] at hmem
  split
  · rename_i hk
    obtain ⟨-, -, hlt⟩ := hmem.mp hk.2
    constructor
    · intro hc
      cases hc
    · rintro ⟨n, rfl, hs⟩
      rw [keySeq_seqKey] at hlt
      exact absurd (survives_concat_prune.mp hs).2 (UInt64.not_le.mpr hlt)
  rename_i hk
  rw [h.contents]
  constructor
  · rintro ⟨n, rfl, hs⟩
    refine ⟨n, rfl, survives_concat_prune.mpr ⟨hs, UInt64.not_lt.mp fun hlt => hk ⟨rfl, ?_⟩⟩⟩
    refine hmem.mpr ⟨?_, (length_seqKey n).ge, by rwa [keySeq_seqKey]⟩
    rw [(h.contents _ v).mpr ⟨n, rfl, hs⟩]
    rfl
  · rintro ⟨n, rfl, hs⟩
    exact ⟨n, rfl, (survives_concat_prune.mp hs).1⟩

/-- Opening the log and making the calls succeeds, and leaves the surviving messages. -/
theorem holds_openAndCall (hS : S.Reliable) (hempty : ∀ k, S.contents s bucket k = none) :
    ∀ calls, appends calls < 2 ^ 64 - 1 →
      ∃ log t, exec (openAndCall S.toStore bucket calls) s = (.ok log, t) ∧
        Holds S bucket calls log t := by
  intro calls
  induction calls using List.reverseRecOn with
  | nil =>
    intro _
    obtain ⟨log, t, hopen⟩ := newMessageLog_succeeds hS bucket s
    obtain ⟨hc, rfl⟩ := newMessageLog_empty hempty hopen
    refine ⟨_, t, exec_bind_ok hopen, rfl, rfl, fun k v => ?_⟩
    rw [hc, hempty k]
    constructor
    · intro h
      cases h
    · rintro ⟨n, -, hs⟩
      exact absurd hs (not_survives_nil n v)
  | append_singleton calls c ih =>
    intro hfew
    cases c with
    | append data =>
      rw [appends_concat_append] at hfew
      obtain ⟨log, t, hrun, hh⟩ := ih (by omega)
      obtain ⟨seq, log', u, happ⟩ := append_succeeds hS log data t
      refine ⟨log', u, ?_, hh.append (by omega) happ⟩
      rw [openAndCall_concat, exec_bind_ok hrun, LogCall.perform, exec_bind_ok happ, exec_pure]
    | prune b =>
      rw [appends_concat_prune] at hfew
      obtain ⟨log, t, hrun, hh⟩ := ih hfew
      obtain ⟨u, hp⟩ := prune_succeeds hS log b t
      refine ⟨log, u, ?_, hh.prune hp⟩
      rw [openAndCall_concat, exec_bind_ok hrun, LogCall.perform, exec_bind_ok hp, exec_pure]

/-! ### What is replayed -/

/-- The loop of `Replay` loads every message. -/
theorem messages_stored (hS : S.Reliable) (bucket : String) (keys : List Bytes) :
    ∀ s, (∀ k ∈ keys, 8 ≤ k.length ∧ (S.contents s bucket k).isSome = true) →
      ∃ t, exec (MessageLog.messages S.toStore bucket keys) s =
        (.ok (keys.map fun k => (keySeq k, (S.contents s bucket k).getD [])), t) := by
  induction keys with
  | nil => exact fun s _ => ⟨s, rfl⟩
  | cons key keys ih =>
    intro s hkeys
    obtain ⟨hlen, hsome⟩ := hkeys key List.mem_cons_self
    obtain ⟨val, hval⟩ := Option.isSome_iff_exists.mp hsome
    obtain ⟨v, u, hl⟩ := hS.load bucket key s
    have hv := S.load_ok hl
    have hc := S.load_keeps hl
    obtain ⟨t, hrest⟩ := ih u fun k hk => by
      rw [hc]
      exact hkeys k (List.mem_cons_of_mem _ hk)
    refine ⟨t, ?_⟩
    rw [MessageLog.messages, if_neg (by omega), exec_bind_ok hl, exec_bind_ok hrest, hv, hc]
    simp only [exec_pure, List.map_cons, hval, Option.getD_some]

theorem deliver_all {fn : UInt64 → Bytes → Option Err} (hfn : ∀ n data, fn n data = none)
    (msgs : List (UInt64 × Bytes)) : MessageLog.deliver fn msgs = (msgs, none) := by
  induction msgs with
  | nil => rfl
  | cons msg msgs ih => simp only [MessageLog.deliver, hfn, ih]

/-- What `List` names, sorted, are the keys of the surviving messages in the order of
their numbers. -/
theorem Holds.sortStrings (h : Holds S bucket calls log s) {keys : List Bytes}
    (hnodup : keys.Nodup) (hkeys : ∀ k, k ∈ keys ↔ (S.contents s bucket k).isSome = true) :
    (MessageLog.sortStrings keys).Pairwise (keySeq · < keySeq ·) := by
  have hnames : ∀ k ∈ MessageLog.sortStrings keys, ∃ n, k = seqKey n := by
    intro k hk
    have hk' := (hkeys k).mp ((List.perm_insertionSort _ keys).mem_iff.mp hk)
    obtain ⟨v, hv⟩ := Option.isSome_iff_exists.mp hk'
    obtain ⟨n, hn, -⟩ := (h.contents k v).mp hv
    exact ⟨n, hn⟩
  have hle : (MessageLog.sortStrings keys).Pairwise (· ≤ ·) := List.pairwise_insertionSort _ keys
  have hne : (MessageLog.sortStrings keys).Nodup :=
    (List.perm_insertionSort _ keys).nodup_iff.mpr hnodup
  refine (hle.and hne).imp_of_mem ?_
  intro a b ha hb hab
  obtain ⟨m, rfl⟩ := hnames a ha
  obtain ⟨n, rfl⟩ := hnames b hb
  rw [keySeq_seqKey, keySeq_seqKey]
  exact seqKey_lt.mp (Std.lt_of_le_of_ne hab.1 hab.2)

/-- **What `Replay` delivers and `Len` counts** are the surviving messages. -/
theorem Holds.replay (hS : S.Reliable) (h : Holds S bucket calls log s) :
    ∃ msgs : List (UInt64 × Bytes), msgs.Pairwise (·.1 < ·.1) ∧
      (∀ n data, (n, data) ∈ msgs ↔ Survives calls n data) ∧
      (∀ fn, ∃ t, exec (log.replay S.toStore fn) s = (.ok (MessageLog.deliver fn msgs), t)) ∧
      ∃ t, exec (log.len S.toStore) s = (.ok msgs.length, t) := by
  obtain ⟨keys, u, hl⟩ := hS.list bucket s
  obtain ⟨hnodup, hkeys⟩ := S.list_ok hl
  have hperm : (MessageLog.sortStrings keys).Perm keys := List.perm_insertionSort _ keys
  have hstored : ∀ k ∈ keys, ∃ n data, k = seqKey n ∧ S.contents s bucket k = some data ∧
      Survives calls n data := by
    intro k hk
    obtain ⟨data, hd⟩ := Option.isSome_iff_exists.mp ((hkeys k).mp hk)
    obtain ⟨n, hn, hs⟩ := (h.contents k data).mp hd
    exact ⟨n, data, hn, hd, hs⟩
  have hlen : ∀ k ∈ keys, 8 ≤ k.length := by
    intro k hk
    obtain ⟨n, -, rfl, -, -⟩ := hstored k hk
    exact (length_seqKey n).ge
  refine ⟨(MessageLog.sortStrings keys).map fun k =>
    (keySeq k, (S.contents s bucket k).getD []), ?_, ?_, ?_, ?_⟩
  · exact List.pairwise_map.mpr (h.sortStrings hnodup hkeys)
  · intro n data
    rw [List.mem_map]
    constructor
    · rintro ⟨k, hk, heq⟩
      obtain ⟨m, d, rfl, hd, hs⟩ := hstored k (hperm.mem_iff.mp hk)
      rw [keySeq_seqKey, hd] at heq
      cases heq
      exact hs
    · intro hs
      have hd := (h.contents (seqKey n) data).mpr ⟨n, rfl, hs⟩
      refine ⟨seqKey n, hperm.mem_iff.mpr ((hkeys _).mpr (by rw [hd]; rfl)), ?_⟩
      rw [keySeq_seqKey, hd]
      rfl
  · intro fn
    obtain ⟨t, hm⟩ := messages_stored hS bucket (MessageLog.sortStrings keys) u fun k hk => by
      rw [S.list_keeps hl]
      exact ⟨hlen k (hperm.mem_iff.mp hk), (hkeys k).mp (hperm.mem_iff.mp hk)⟩
    refine ⟨t, ?_⟩
    rw [MessageLog.replay, h.opened, exec_bind_ok hl, exec_bind_ok hm, S.list_keeps hl, exec_pure]
  · refine ⟨u, ?_⟩
    have hcount : keys.countP (fun k => decide (8 ≤ k.length)) = keys.length :=
      List.countP_eq_length.mpr fun k hk => decide_eq_true (hlen k hk)
    rw [MessageLog.len, h.opened, exec_bind_ok hl, exec_pure, hcount, List.length_map,
      hperm.length_eq]

/-- **`Prune` removes the messages below its bound** and nothing else. -/
theorem Holds.prune_contents (h : Holds S bucket calls log s)
    (hp : exec (log.prune S.toStore b) s = (.ok (), t)) {msgs : List (UInt64 × Bytes)}
    (hmsgs : ∀ n data, (n, data) ∈ msgs ↔ Survives calls n data) :
    S.contents t = (S.contents s).drop bucket
      ((msgs.filter fun msg => decide (msg.1 < b)).map fun msg => seqKey msg.1) := by
  obtain ⟨gone, hgone, hall⟩ := prune_drops hp
  rw [h.opened] at hgone hall
  have hmem : ∀ k, k ∈ gone ↔
      k ∈ (msgs.filter fun msg => decide (msg.1 < b)).map fun msg => seqKey msg.1 := by
    intro k
    rw [hall rfl, List.mem_map]
    constructor
    · rintro ⟨hsome, -, hlt⟩
      obtain ⟨data, hd⟩ := Option.isSome_iff_exists.mp hsome
      obtain ⟨n, rfl, hs⟩ := (h.contents k data).mp hd
      rw [keySeq_seqKey] at hlt
      exact ⟨(n, data), List.mem_filter.mpr ⟨(hmsgs n data).mpr hs, decide_eq_true hlt⟩, rfl⟩
    · rintro ⟨⟨n, data⟩, hin, rfl⟩
      obtain ⟨hin, hlt⟩ := List.mem_filter.mp hin
      refine ⟨?_, (length_seqKey n).ge, by rw [keySeq_seqKey]; exact of_decide_eq_true hlt⟩
      rw [(h.contents (seqKey n) data).mpr ⟨n, rfl, (hmsgs n data).mp hin⟩]
      rfl
  rw [hgone]
  funext b' k
  simp only [Contents.drop_apply, hmem]

end Calls

/-- **A log replays exactly the messages that no later `Prune` was to remove**, in the
order of their numbers and each with its data; `Len` is how many they are, and `Prune`
takes away those below its bound. -/
theorem replay_exact (S : MapStore σ) (hS : S.Reliable) (bucket : String) (s : σ)
    (hempty : ∀ k, S.contents s bucket k = none) (calls : List LogCall)
    (hfew : appends calls < 2 ^ 64 - 1) :
    ∃ log t, ∃ msgs : List (UInt64 × Bytes),
      exec (openAndCall S.toStore bucket calls) s = (.ok log, t) ∧
      msgs.Pairwise (·.1 < ·.1) ∧ (∀ n data, (n, data) ∈ msgs ↔ Survives calls n data) ∧
      (∀ fn, ∃ u, exec (log.replay S.toStore fn) t = (.ok (MessageLog.deliver fn msgs), u)) ∧
      (∀ fn, (∀ n data, fn n data = none) → MessageLog.deliver fn msgs = (msgs, none)) ∧
      (∃ u, exec (log.len S.toStore) t = (.ok msgs.length, u)) ∧
      ∀ b, ∃ u, exec (log.prune S.toStore b) t = (.ok (), u) ∧
        S.contents u = (S.contents t).drop bucket
          ((msgs.filter fun msg => decide (msg.1 < b)).map fun msg => seqKey msg.1) := by
  obtain ⟨log, t, hrun, hh⟩ := holds_openAndCall hS hempty calls hfew
  obtain ⟨msgs, hsorted, hmsgs, hreplay, hlen⟩ := hh.replay hS
  refine ⟨log, t, msgs, hrun, hsorted, hmsgs, hreplay, fun fn hfn => deliver_all hfn msgs, hlen,
    fun b => ?_⟩
  obtain ⟨u, hp⟩ := prune_succeeds hS log b t
  exact ⟨u, hp, hh.prune_contents hp hmsgs⟩

/-- A bound far above the only message so far. -/
def pruneAhead : List LogCall := [.append [1], .prune 10, .append [2]]

theorem replay_exact_pruneAhead : appends pruneAhead < 2 ^ 64 - 1 ∧
    ∃ log t, ∃ msgs : List (UInt64 × Bytes),
      exec (openAndCall memory.toStore "messages" pruneAhead) (.new fun _ => .id) =
        (.ok log, t) ∧ ∀ n data, (n, data) ∈ msgs ↔ Survives pruneAhead n data := by
  refine ⟨by decide, ?_⟩
  obtain ⟨log, t, msgs, hrun, -, hmsgs, -⟩ := replay_exact memory memory_reliable "messages"
    (.new fun _ => .id) (fun _ => rfl) pruneAhead (by decide)
  exact ⟨log, t, msgs, hrun, hmsgs⟩

/-- A message appended after a `Prune` is replayed although its number is below the
bound. -/
theorem later_message_replayed : ∃ log t, LogCall.prune 10 ∈ pruneAhead ∧ (2 : UInt64) < 10 ∧
    exec (openAndCall memory.toStore "messages" pruneAhead) (.new fun _ => .id) = (.ok log, t) ∧
    (exec (log.replay memory.toStore fun _ _ => none) t).1 = .ok ([(2, [2])], none) :=
  ⟨_, _, by decide, by decide, rfl, rfl⟩

end SharkSocket.Infra
