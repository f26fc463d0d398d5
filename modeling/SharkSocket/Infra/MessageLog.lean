import SharkSocket.Infra.Store
import SharkSocket.Lib.BigEndian

/-!
# `infra/store/message_log.go`: `MessageLog`

A message is stored under its number, written as eight bytes, and the next number is
kept in memory.  Opening a log looks at the keys that are there and goes on after the
largest.  A key shorter than eight bytes is not a message.

The lock of the log is held for the whole of `Append` and `Prune` and while `Replay`
loads, so each is one program over the store.  The specs say what an operation does to
the contents of the store, whether it succeeds or fails.
-/

namespace SharkSocket.Infra

open Lib

variable {σ : Type}

structure MessageLog where
  bucket : String
  next : UInt64
  deriving DecidableEq, Repr

def seqKey (seq : UInt64) : Bytes := putBE 8 seq.toNat

/-- `binary.BigEndian.Uint64` of the first eight bytes of a key. -/
def keySeq (key : Bytes) : UInt64 := UInt64.ofNat (beNat (key.take 8))

/-- The loop of `NewMessageLog` over the keys. -/
def maxSeq (keys : List Bytes) : UInt64 :=
  keys.foldl (fun m k => if 8 ≤ k.length ∧ m < keySeq k then keySeq k else m) 0

def newMessageLog (S : Store σ) (bucket : String) : StoreM σ MessageLog := do
  let keys ← adaptError (.wrap s!"message_log: list {bucket}: ") (S.list bucket)
  return ⟨bucket, maxSeq keys + 1⟩

namespace MessageLog

variable (S : Store σ) (log : MessageLog)

def append (data : Bytes) : StoreM σ (UInt64 × MessageLog) := do
  adaptError (.wrap "message_log: append: ") (S.save log.bucket (seqKey log.next) data)
  return (log.next, { log with next := log.next + 1 })

/-- `sort.Strings`: bytewise. -/
def sortStrings (keys : List Bytes) : List Bytes := keys.insertionSort (· ≤ ·)

/-- The loop of `Replay` that loads the messages. -/
def messages (S : Store σ) (bucket : String) : List Bytes → StoreM σ (List (UInt64 × Bytes))
  | [] => return []
  | key :: keys =>
    if key.length < 8 then messages S bucket keys
    else do
      let val ← S.load bucket key
      let rest ← messages S bucket keys
      match val with
      | none => return rest
      | some val => return (keySeq key, val) :: rest

/-- The calls of `fn`, up to the first that fails, and its error. -/
def deliver (fn : UInt64 → Bytes → Option Err) :
    List (UInt64 × Bytes) → List (UInt64 × Bytes) × Option Err
  | [] => ([], none)
  | msg :: rest =>
    match fn msg.1 msg.2 with
    | some e => ([msg], some e)
    | none => (msg :: (deliver fn rest).1, (deliver fn rest).2)

def replay (fn : UInt64 → Bytes → Option Err) : StoreM σ (List (UInt64 × Bytes) × Option Err) := do
  let keys ← S.list log.bucket
  let msgs ← messages S log.bucket (sortStrings keys)
  return deliver fn msgs

def deleteEach (S : Store σ) (bucket : String) : List Bytes → StoreM σ Unit
  | [] => return
  | key :: keys => do
    S.delete bucket key
    deleteEach S bucket keys

def toDelete (keys : List Bytes) (beforeSeq : UInt64) : List Bytes :=
  keys.filter fun k => 8 ≤ k.length ∧ keySeq k < beforeSeq

def deleteKeys (bucket : String) (keys : List Bytes) : StoreM σ Unit :=
  if keys = [] then return
  else
    match S.deleteBatch with
    | some del => del bucket keys
    | none => deleteEach S bucket keys

def prune (beforeSeq : UInt64) : StoreM σ Unit := do
  let keys ← S.list log.bucket
  deleteKeys S log.bucket (toDelete keys beforeSeq)

def len : StoreM σ Nat := do
  let keys ← S.list log.bucket
  return keys.countP fun k => 8 ≤ k.length

end MessageLog

/-! ### Numbers and keys -/

@[simp] theorem length_seqKey (n : UInt64) : (seqKey n).length = 8 := length_putBE 8 _

theorem beNat_seqKey (n : UInt64) : beNat (seqKey n) = n.toNat :=
  beNat_putBE_of_lt (by simpa using n.toNat_lt)

@[simp] theorem keySeq_seqKey (n : UInt64) : keySeq (seqKey n) = n := by
  rw [keySeq, List.take_of_length_le (length_seqKey n).le, beNat_seqKey, UInt64.ofNat_toNat]

theorem seqKey_inj {m n : UInt64} (h : seqKey m = seqKey n) : m = n := by
  rw [← keySeq_seqKey m, h, keySeq_seqKey]

/-- **The keys sort as the numbers do.** -/
theorem seqKey_lt {m n : UInt64} : seqKey m < seqKey n ↔ m < n := by
  rw [lt_iff_beNat_lt (by rw [length_seqKey, length_seqKey]), beNat_seqKey, beNat_seqKey,
    UInt64.lt_iff_toNat_lt]

/-! ### What the operations do to the contents -/

section Specs

variable {S : MapStore σ} {log log' : MessageLog} {s t : σ} {bucket : String}

/-- What `List` says about the keys, when it answers. -/
theorem newMessageLog_ok (h : exec (newMessageLog S.toStore bucket) s = (.ok log, t)) :
    S.contents t = S.contents s ∧ ∃ keys : List Bytes, log = ⟨bucket, maxSeq keys + 1⟩ ∧
      ∀ k, k ∈ keys ↔ (S.contents s bucket k).isSome = true := by
  rcases exec_bind_cases h with ⟨e, -, he⟩ | ⟨keys, u, hl, hp⟩
  · cases he
  have hk := exec_of_adaptError_ok hl
  cases hp
  exact ⟨S.list_keeps hk, keys, rfl, (S.list_ok hk).2⟩

/-- A log opened on an empty bucket begins with number one. -/
theorem newMessageLog_empty (hempty : ∀ k, S.contents s bucket k = none)
    (h : exec (newMessageLog S.toStore bucket) s = (.ok log, t)) :
    S.contents t = S.contents s ∧ log = ⟨bucket, 1⟩ := by
  obtain ⟨hc, keys, rfl, hkeys⟩ := newMessageLog_ok h
  have hnil : keys = [] := by
    refine List.eq_nil_iff_forall_not_mem.mpr fun k hk => ?_
    have hsome := (hkeys k).mp hk
    rw [hempty k] at hsome
    cases hsome
  rw [hnil]
  exact ⟨hc, rfl⟩

theorem newMessageLog_error {e : Err}
    (h : exec (newMessageLog S.toStore bucket) s = (.error e, t)) :
    S.contents t = S.contents s := by
  rcases exec_bind_cases h with ⟨e', hl, -⟩ | ⟨keys, u, -, hp⟩
  · obtain ⟨_, hk⟩ := exec_of_adaptError_error hl
    exact S.list_keeps hk
  · cases hp

theorem append_ok {data : Bytes} {seq : UInt64}
    (h : exec (log.append S.toStore data) s = (.ok (seq, log'), t)) :
    seq = log.next ∧ log' = { log with next := log.next + 1 } ∧
      S.contents t = (S.contents s).put log.bucket (seqKey log.next) data := by
  rcases exec_bind_cases h with ⟨e, -, he⟩ | ⟨u, s', hs, hp⟩
  · cases he
  cases hp
  exact ⟨rfl, rfl, S.save_ok (exec_of_adaptError_ok hs)⟩

theorem append_error {data : Bytes} {e : Err}
    (h : exec (log.append S.toStore data) s = (.error e, t)) : S.contents t = S.contents s := by
  rcases exec_bind_cases h with ⟨e', hs, -⟩ | ⟨u, s', -, hp⟩
  · obtain ⟨_, hk⟩ := exec_of_adaptError_error hs
    exact S.save_error hk
  · cases hp

/-- Deleting one key after the other, up to a failure, removes the keys before it. -/
theorem deleteEach_drops {r : Except Err Unit} {keys : List Bytes}
    (h : exec (MessageLog.deleteEach S.toStore bucket keys) s = (r, t)) :
    ∃ gone, S.contents t = (S.contents s).drop bucket gone ∧ (r = .ok () → gone = keys) := by
  induction keys generalizing s with
  | nil =>
    cases h
    exact ⟨[], (Contents.drop_nil _ _).symm, fun _ => rfl⟩
  | cons key keys ih =>
    rcases exec_bind_cases h with ⟨e, hd, rfl⟩ | ⟨_, u, hd, hrest⟩
    · exact ⟨[], by rw [S.delete_error hd, Contents.drop_nil], fun hc => by cases hc⟩
    obtain ⟨gone, hgone, hall⟩ := ih hrest
    refine ⟨[key] ++ gone, ?_, fun hr => by rw [hall hr]; rfl⟩
    rw [hgone, S.delete_ok hd, Contents.drop_drop]

theorem deleteKeys_drops {r : Except Err Unit} {keys : List Bytes}
    (h : exec (MessageLog.deleteKeys S.toStore bucket keys) s = (r, t)) :
    ∃ gone, S.contents t = (S.contents s).drop bucket gone ∧ (r = .ok () → gone = keys) := by
  unfold MessageLog.deleteKeys at h
  split at h
  · rename_i hnil
    cases h
    exact ⟨[], (Contents.drop_nil _ _).symm, fun _ => hnil.symm⟩
  split at h
  · rename_i del hdel
    cases r with
    | ok _ => exact ⟨keys, S.batch_ok hdel h, fun _ => rfl⟩
    | error e =>
      obtain ⟨gone, hgone⟩ := S.batch_error hdel h
      exact ⟨gone, hgone, fun hc => by cases hc⟩
  · exact deleteEach_drops h

/-- **`Prune` only removes**, and when it succeeds it removes exactly what is
numbered below its bound, with or without `DeleteBatch`. -/
theorem prune_drops {r : Except Err Unit} {beforeSeq : UInt64}
    (h : exec (log.prune S.toStore beforeSeq) s = (r, t)) :
    ∃ gone, S.contents t = (S.contents s).drop log.bucket gone ∧ (r = .ok () → ∀ k, k ∈ gone ↔
        (S.contents s log.bucket k).isSome = true ∧ 8 ≤ k.length ∧ keySeq k < beforeSeq) := by
  rcases exec_bind_cases h with ⟨e, hl, rfl⟩ | ⟨keys, u, hl, hd⟩
  · exact ⟨[], by rw [S.list_keeps hl, Contents.drop_nil], fun hc => by cases hc⟩
  obtain ⟨gone, hgone, hall⟩ := deleteKeys_drops hd
  rw [S.list_keeps hl] at hgone
  refine ⟨gone, hgone, fun hr k => ?_⟩
  rw [hall hr, MessageLog.toDelete, List.mem_filter, (S.list_ok hl).2 k, decide_eq_true_eq]

end Specs

end SharkSocket.Infra
