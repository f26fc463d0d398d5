import SharkSocket.Infra.MessageLog
import SharkSocket.Lib.Machine

/-!
# The numbers of a message log

A `LogHistory` is a log on its store, with the numbers that its successful `Append`s
have returned so far, over all the times the log was opened.  Any operation of the
store may fail.

Opening a log reconstructs the next number from the keys that are left.  When `Prune`
has removed the last message, the reconstruction falls short and numbers that were
given to callers are given out again (`pruned_number_returns`).  As long as every
opening finds the last message, the numbers increase over the whole history
(`numbers_increase`).
-/

namespace SharkSocket.Infra

open Lib

variable {σ : Type}

structure LogHistory (σ : Type) where
  store : σ
  log : MessageLog
  numbers : List UInt64

inductive LogOp
  | append (data : Bytes)
  | prune (beforeSeq : UInt64)
  | reopen
  deriving DecidableEq, Repr

namespace LogHistory

def step (S : Store σ) (h : LogHistory σ) : LogOp → LogHistory σ
  | .append data =>
    match exec (h.log.append S data) h.store with
    | (.ok (seq, log), t) => ⟨t, log, h.numbers ++ [seq]⟩
    | (.error _, t) => { h with store := t }
  | .prune beforeSeq => { h with store := (exec (h.log.prune S beforeSeq) h.store).2 }
  | .reopen =>
    match exec (newMessageLog S h.log.bucket) h.store with
    | (.ok log, t) => { h with store := t, log := log }
    | (.error _, t) => { h with store := t }

/-- The last message that was appended is still stored. -/
def LastStored (S : MapStore σ) (h : LogHistory σ) : Prop :=
  match h.numbers.getLast? with
  | none => True
  | some n => (S.contents h.store h.log.bucket (seqKey n)).isSome = true

instance (S : MapStore σ) (h : LogHistory σ) : Decidable (h.LastStored S) :=
  match hn : h.numbers.getLast? with
  | none => isTrue (by rw [LastStored, hn]; trivial)
  | some n =>
    decidable_of_iff ((S.contents h.store h.log.bucket (seqKey n)).isSome = true)
      (by rw [LastStored, hn])

/-- The log is opened only while its last message is stored, and appended to only
while the 64 bits of its numbers last. -/
def KeepsLast (S : MapStore σ) (h : LogHistory σ) (op : LogOp) : Prop :=
  match op with
  | .append _ => h.log.next ≠ 0
  | .prune _ => True
  | .reopen => h.LastStored S

instance (S : MapStore σ) (h : LogHistory σ) (op : LogOp) : Decidable (h.KeepsLast S op) :=
  match op with
  | .append _ => inferInstanceAs (Decidable (_ ≠ _))
  | .prune _ => inferInstanceAs (Decidable True)
  | .reopen => inferInstanceAs (Decidable (h.LastStored S))

end LogHistory

/-- A log that is first opened on an empty bucket. -/
def history (S : MapStore σ) (bucket : String) : Machine (LogHistory σ) LogOp where
  init h := (∃ s, (∀ k, S.contents s bucket k = none) ∧
    exec (newMessageLog S.toStore bucket) s = (.ok h.log, h.store)) ∧ h.numbers = []
  step h op := some (h.step S.toStore op)

/-! ### The largest number -/

/-- The loop keeps the largest number it has seen. -/
theorem maxSeq_foldl (keys : List Bytes) : ∀ m r : UInt64,
    r = keys.foldl (fun m k => if 8 ≤ k.length ∧ m < keySeq k then keySeq k else m) m →
    m ≤ r ∧ (∀ k ∈ keys, 8 ≤ k.length → keySeq k ≤ r) ∧ (r = m ∨ ∃ k ∈ keys, r = keySeq k) := by
  induction keys with
  | nil =>
    rintro m r rfl
    exact ⟨UInt64.le_rfl, fun k hk => (by cases hk), .inl rfl⟩
  | cons k keys ih =>
    intro m r hr
    rw [List.foldl_cons] at hr
    obtain ⟨hle, hall, hsome⟩ := ih _ r hr
    have hmax : m ≤ (if 8 ≤ k.length ∧ m < keySeq k then keySeq k else m) ∧
        (8 ≤ k.length → keySeq k ≤ if 8 ≤ k.length ∧ m < keySeq k then keySeq k else m) := by
      split
      · rename_i hk
        exact ⟨UInt64.le_of_lt hk.2, fun _ => UInt64.le_rfl⟩
      rename_i hk
      exact ⟨UInt64.le_rfl, fun hlen => UInt64.not_lt.mp fun hlt => hk ⟨hlen, hlt⟩⟩
    refine ⟨UInt64.le_trans hmax.1 hle, ?_, ?_⟩
    · intro k' hk' hlen
      rcases List.mem_cons.mp hk' with rfl | hk'
      · exact UInt64.le_trans (hmax.2 hlen) hle
      · exact hall k' hk' hlen
    · rcases hsome with hsome | ⟨k', hk', heq⟩
      · rw [hsome]
        split
        · exact .inr ⟨k, List.mem_cons_self, rfl⟩
        · exact .inl rfl
      · exact .inr ⟨k', List.mem_cons_of_mem _ hk', heq⟩

theorem keySeq_le_maxSeq {keys : List Bytes} {k : Bytes} (hk : k ∈ keys) (hlen : 8 ≤ k.length) :
    keySeq k ≤ maxSeq keys :=
  (maxSeq_foldl keys 0 _ rfl).2.1 k hk hlen

theorem maxSeq_eq (keys : List Bytes) : maxSeq keys = 0 ∨ ∃ k ∈ keys, maxSeq keys = keySeq k :=
  (maxSeq_foldl keys 0 _ rfl).2.2

variable {n : UInt64}

theorem seq_lt_succ (h : n + 1 ≠ 0) : n < n + 1 := by
  rw [UInt64.lt_iff_toNat_lt]
  have hne : (n + 1).toNat ≠ 0 := fun hc => h (UInt64.toNat_inj.mp hc)
  rw [UInt64.toNat_add] at hne ⊢
  have hn := n.toNat_lt
  simp only [UInt64.toNat_one] at hne ⊢
  omega

theorem seq_succ_le {m : UInt64} (h : m < n) : m + 1 ≤ n := by
  rw [UInt64.lt_iff_toNat_lt] at h
  rw [UInt64.le_iff_toNat_le, UInt64.toNat_add, UInt64.toNat_one]
  omega

/-! ### The invariant -/

namespace LogHistory

variable {S : MapStore σ} {bucket : String} {h : LogHistory σ}

/-- What is stored was appended, the numbers increase, and the next one follows. -/
structure Numbered (S : MapStore σ) (bucket : String) (h : LogHistory σ) : Prop where
  opened : h.log.bucket = bucket
  stored : ∀ k, (S.contents h.store bucket k).isSome = true → ∃ n ∈ h.numbers, k = seqKey n
  positive : ∀ n ∈ h.numbers, n ≠ 0
  increasing : h.numbers.Pairwise (· < ·)
  next : h.log.next = h.numbers.getLast?.elim 1 (· + 1)

variable {l : List UInt64}

theorem lastStored_concat (hn : h.numbers = l ++ [n]) :
    h.LastStored S ↔ (S.contents h.store h.log.bucket (seqKey n)).isSome = true := by
  simp only [LastStored, hn, List.getLast?_concat]

section

variable (hi : Numbered S bucket h)
include hi

theorem Numbered.le_last (hn : h.numbers = l ++ [n]) : ∀ m ∈ h.numbers, m ≤ n := by
  intro m hm
  have hinc := hi.increasing
  rw [hn] at hm hinc
  rcases List.mem_append.mp hm with hm | hm
  · exact UInt64.le_of_lt ((List.pairwise_append.mp hinc).2.2 m hm n (List.mem_singleton_self n))
  rw [List.mem_singleton.mp hm]
  exact UInt64.le_rfl

theorem Numbered.contents_nil (hnil : h.numbers = []) (k : Bytes) :
    S.contents h.store bucket k = none := by
  rw [← Option.not_isSome_iff_eq_none]
  intro hsome
  obtain ⟨n, hn, -⟩ := hi.stored k hsome
  rw [hnil] at hn
  cases hn

/-- **The number found when the log is opened** is the last one exactly when the last
message is stored, and smaller otherwise. -/
theorem Numbered.maxSeq_keys (hn : h.numbers = l ++ [n])
    {keys : List Bytes} (hkeys : ∀ k, k ∈ keys ↔ (S.contents h.store bucket k).isSome = true) :
    (h.LastStored S → maxSeq keys = n) ∧ (¬ h.LastStored S → maxSeq keys < n) := by
  have hmem : n ∈ h.numbers := by
    rw [hn]
    exact List.mem_append_right _ (List.mem_singleton_self n)
  have hle : maxSeq keys ≤ n := by
    rcases maxSeq_eq keys with h0 | ⟨k, hk, hseq⟩
    · rw [h0]
      exact UInt64.zero_le
    obtain ⟨m, hm, rfl⟩ := hi.stored k ((hkeys k).mp hk)
    rw [hseq, keySeq_seqKey]
    exact hi.le_last hn m hm
  rw [lastStored_concat hn, hi.opened, ← hkeys]
  constructor
  · intro hst
    refine UInt64.le_antisymm hle ?_
    have hge := keySeq_le_maxSeq hst (length_seqKey n).ge
    rwa [keySeq_seqKey] at hge
  · intro hnot
    refine UInt64.lt_of_le_of_ne hle fun heq => ?_
    rcases maxSeq_eq keys with h0 | ⟨k, hk, hseq⟩
    · exact hi.positive n hmem (heq.symm.trans h0)
    obtain ⟨m, -, rfl⟩ := hi.stored k ((hkeys k).mp hk)
    rw [hseq, keySeq_seqKey] at heq
    subst heq
    exact hnot hk

theorem Numbered.append (hnext : h.log.next ≠ 0) (data : Bytes) :
    Numbered S bucket (h.step S.toStore (.append data)) := by
  simp only [step]
  split
  · rename_i seq log t happ
    obtain ⟨rfl, rfl, hc⟩ := append_ok happ
    refine ⟨hi.opened, ?_, ?_, ?_, ?_⟩
    · intro k hk
      rw [hc, Contents.put] at hk
      split at hk
      · rename_i heq
        exact ⟨_, List.mem_append_right _ (List.mem_singleton_self _), heq.2⟩
      obtain ⟨n, hn, rfl⟩ := hi.stored k hk
      exact ⟨n, List.mem_append_left _ hn, rfl⟩
    · exact List.forall_mem_append.mpr ⟨hi.positive, List.forall_mem_singleton.mpr hnext⟩
    · refine List.pairwise_append.mpr ⟨hi.increasing, List.pairwise_singleton _ _, ?_⟩
      intro m hm n hn
      rw [List.mem_singleton] at hn
      subst hn
      -- the last number is one below the next, which has not wrapped
      rcases List.eq_nil_or_concat h.numbers with hnil | ⟨l, last, hl⟩
      · rw [hnil] at hm
        cases hm
      rw [List.concat_eq_append] at hl
      have hlast := hi.next
      rw [hl, List.getLast?_concat] at hlast
      rw [hlast] at hnext ⊢
      exact UInt64.lt_of_le_of_lt (hi.le_last hl m hm) (seq_lt_succ hnext)
    · rw [List.getLast?_concat, Option.elim_some]
  · rename_i e t happ
    have hc := append_error happ
    exact ⟨hi.opened, fun k hk => hi.stored k (by rwa [hc] at hk), hi.positive, hi.increasing,
      hi.next⟩

theorem Numbered.prune (beforeSeq : UInt64) :
    Numbered S bucket (h.step S.toStore (.prune beforeSeq)) := by
  refine ⟨hi.opened, ?_, hi.positive, hi.increasing, hi.next⟩
  intro k hk
  rcases hp : exec (h.log.prune S.toStore beforeSeq) h.store with ⟨r, t⟩
  obtain ⟨gone, hgone, -⟩ := prune_drops hp
  simp only [step, hp, hgone] at hk
  obtain ⟨v, hv⟩ := Option.isSome_iff_exists.mp hk
  exact hi.stored k (by rw [Contents.drop_eq_some hv]; rfl)

theorem Numbered.reopen (hlast : h.LastStored S) :
    Numbered S bucket (h.step S.toStore .reopen) := by
  simp only [step]
  split
  · rename_i log t hopen
    rw [hi.opened] at hopen
    rcases List.eq_nil_or_concat h.numbers with hnil | ⟨l, n, hn⟩
    · obtain ⟨hc, rfl⟩ := newMessageLog_empty (hi.contents_nil hnil) hopen
      refine ⟨rfl, fun k hk => hi.stored k (by rwa [hc] at hk), hi.positive, hi.increasing, ?_⟩
      rw [hnil]
      rfl
    obtain ⟨hc, keys, rfl, hkeys⟩ := newMessageLog_ok hopen
    refine ⟨rfl, fun k hk => hi.stored k (by rwa [hc] at hk), hi.positive, hi.increasing, ?_⟩
    rw [List.concat_eq_append] at hn
    rw [(hi.maxSeq_keys hn hkeys).1 hlast, hn, List.getLast?_concat, Option.elim_some]
  · rename_i e t hopen
    have hc := newMessageLog_error hopen
    exact ⟨hi.opened, fun k hk => hi.stored k (by rwa [hc] at hk), hi.positive, hi.increasing,
      hi.next⟩

end

theorem numbered_of_reaches (hr : (history S bucket).Reaches (KeepsLast S) h) :
    Numbered S bucket h := by
  refine hr.inv ?_ ?_
  · rintro h ⟨⟨s, hempty, hopen⟩, hnil⟩
    obtain ⟨hc, hlog⟩ := newMessageLog_empty hempty hopen
    refine ⟨by rw [hlog], ?_, ?_, ?_, ?_⟩
    · intro k hk
      rw [hc, hempty k] at hk
      cases hk
    · intro n hn
      rw [hnil] at hn
      cases hn
    · rw [hnil]
      exact .nil
    · rw [hlog, hnil]
      rfl
  · intro h op t hi hok hst
    cases hst
    cases op with
    | append data => exact hi.append hok data
    | prune beforeSeq => exact hi.prune beforeSeq
    | reopen => exact hi.reopen hok

end LogHistory

/-- **The numbers increase over the whole history** while every opening finds the last
message, and an opening that does not find it goes on with a number already used. -/
theorem numbers_increase (S : MapStore σ) (bucket : String) (h : LogHistory σ)
    (hr : (history S bucket).Reaches (LogHistory.KeepsLast S) h) :
    h.numbers.Pairwise (· < ·) ∧
    ∀ log t, h.log.next ≠ 0 → exec (newMessageLog S.toStore bucket) h.store = (.ok log, t) →
      ((∀ n ∈ h.numbers, n < log.next) ↔ h.LastStored S) := by
  have hi := LogHistory.numbered_of_reaches hr
  refine ⟨hi.increasing, fun log t hnext hopen => ?_⟩
  obtain ⟨-, keys, rfl, hkeys⟩ := newMessageLog_ok hopen
  rcases List.eq_nil_or_concat h.numbers with hnil | ⟨l, n, hn⟩
  · simp [LogHistory.LastStored, hnil]
  rw [List.concat_eq_append] at hn
  have hmem : n ∈ h.numbers := by
    rw [hn]
    exact List.mem_append_right _ (List.mem_singleton_self n)
  have hlast := hi.next
  rw [hn, List.getLast?_concat] at hlast
  obtain ⟨heq, hlt⟩ := hi.maxSeq_keys hn hkeys
  constructor
  · intro hall
    by_contra hnot
    exact absurd (hall n hmem) (UInt64.not_lt.mpr (seq_succ_le (hlt hnot)))
  · intro hst m hm
    rw [heq hst]
    exact UInt64.lt_of_le_of_lt (hi.le_last hn m hm) (seq_lt_succ (by rwa [hlast] at hnext))

/-- A log opened on a new `Memory`, whose one walk so far was that of `NewMessageLog`. -/
def firstOpened : LogHistory Memory :=
  ⟨{ Memory.new (fun _ => .id) with walks := 1 }, ⟨"messages", 1⟩, []⟩

theorem init_firstOpened : (history memory "messages").init firstOpened :=
  ⟨⟨.new fun _ => .id, fun _ => rfl, rfl⟩, rfl⟩

/-- The first message is pruned and the log is opened again, the last one still there. -/
def pruneFirst : List LogOp := [.append [1], .append [2], .prune 2, .reopen, .append [3]]

theorem numbers_increase_pruneFirst : ∃ h : LogHistory Memory, h.numbers = [1, 2, 3] ∧
    h.numbers.Pairwise (· < ·) := by
  have hrun : ((history memory "messages").runIf (LogHistory.KeepsLast memory) firstOpened
      pruneFirst).map (·.numbers) = some [1, 2, 3] := by decide +kernel
  obtain ⟨h, hr, hn⟩ := Machine.exists_reaches hrun init_firstOpened
  exact ⟨h, hn, (numbers_increase memory "messages" h hr).1⟩

/-- The last message is pruned before the log is opened again: its number is given to
the next message as well. -/
theorem pruned_number_returns : ∃ h, (history memory "messages").Reachable h ∧
    h.numbers = [1, 1] := by
  have hrun : ((history memory "messages").run firstOpened
      [.append [1], .prune 2, .reopen, .append [2]]).map (·.numbers) = some [1, 1] := by
    decide +kernel
  obtain ⟨h, hreach, hn⟩ := Machine.exists_reachable hrun init_firstOpened
  exact ⟨h, hreach, hn⟩

end SharkSocket.Infra
