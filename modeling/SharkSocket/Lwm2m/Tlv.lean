import SharkSocket.Core
import SharkSocket.Lib.BigEndian

/-!
# `lwm2m/codec_tlv.go`: the TLV codec

A record is a type byte, an identifier, a length and a value.  The type byte says
how wide the identifier and the length are: `EncodeTLV` picks the narrowest of
8, 16 and 32 bits for the one and of 8 and 16 bits for the other.

The decoder keeps an offset into the data, which its errors name.  A `Cursor` is
that offset with the bytes from there on.  `int` has 64 bits, so a 32-bit length is
never negative and the source's check for it never fires.

A record that was encoded is read back whole, and the cursor is then behind it
(`readRecord_record`).  The list goes through record by record.
-/

namespace SharkSocket.Lwm2m

open Lib

inductive ResourceType
  | resourceString
  | resourceInteger
  | resourceFloat
  | resourceBoolean
  | resourceOpaque
  | resourceObjLink
  | resourceTime
  deriving DecidableEq, Repr

/-- `tlvEntry`: the type is for the caller, it is not encoded. -/
structure TlvEntry where
  resourceID : Int
  type : ResourceType
  value : Bytes
  deriving DecidableEq, Repr

structure TlvResource where
  resourceID : Int
  type : ResourceType
  value : Bytes
  deriving DecidableEq, Repr

def tlvResourceWithValue : UInt8 := 0xC0
def tlvID8 : UInt8 := 0x00
def tlvID16 : UInt8 := (0x01 : UInt8) <<< (3 : UInt8)
def tlvID32 : UInt8 := (0x02 : UInt8) <<< (3 : UInt8)
def tlvLen8 : UInt8 := 0x01
def tlvLen16 : UInt8 := 0x02

/-! ### Encoding -/

/-- The flag and the bytes of an identifier. -/
def identifierField (id : Int) : UInt8 × Bytes :=
  if id ≤ 0xFF then (tlvID8, putBE 1 id.toNat)
  else if id ≤ 0xFFFF then (tlvID16, putBE 2 id.toNat)
  else (tlvID32, putBE 4 id.toNat)

/-- The flag and the bytes of a length. -/
def lengthField (n : Nat) : UInt8 × Bytes :=
  if n ≤ 0xFF then (tlvLen8, putBE 1 n) else (tlvLen16, putBE 2 n)

def record (e : TlvEntry) : Bytes :=
  let (idFlag, idBytes) := identifierField e.resourceID
  let (lenFlag, lenBytes) := lengthField e.value.length
  (tlvResourceWithValue ||| idFlag ||| lenFlag) :: (idBytes ++ lenBytes ++ e.value)

def encodeEntry (e : TlvEntry) : Except Err Bytes :=
  if e.resourceID < 0 ∨ 0xFFFFFFFF < e.resourceID then
    .error (.other s!"resource id {e.resourceID} out of range")
  else if 0xFFFF < e.value.length then
    .error (.other s!"resource {e.resourceID} value length {e.value.length} out of range")
  else .ok (record e)

/-- The loop of `EncodeTLV`. -/
def encodeTLVLoop (buf : Bytes) : List TlvEntry → Except Err Bytes
  | [] => .ok buf
  | e :: entries => do
    let r ← encodeEntry e
    encodeTLVLoop (buf ++ r) entries

def encodeTLV (entries : List TlvEntry) : Except Err Bytes := encodeTLVLoop [] entries

/-! ### Decoding -/

/-- An offset into the data, and the bytes from there on. -/
structure Cursor where
  offset : Nat
  data : Bytes
  deriving DecidableEq, Repr

def Cursor.skip (c : Cursor) (n : Nat) : Cursor := ⟨c.offset + n, c.data.drop n⟩

/-- A big-endian number of `width` bytes, which is part of the identifier or of
the length. -/
def readField (what : String) (width : Nat) (c : Cursor) : Except Err (Nat × Cursor) :=
  if c.data.length < width then
    .error (.other s!"tlv: truncated {8 * width}-bit {what} at offset {c.offset}")
  else .ok (beNat (c.data.take width), c.skip width)

def readIdentifier (typeByte : UInt8) (c : Cursor) : Except Err (Nat × Cursor) :=
  match (typeByte >>> 3) &&& 0x03 with
  | 0 => readField "identifier" 1 c
  | 1 => readField "identifier" 2 c
  | 2 => readField "identifier" 4 c
  | _ => .error (.other s!"tlv: reserved identifier length at offset {c.offset - 1}")

def readLength (typeByte : UInt8) (c : Cursor) : Except Err (Nat × Cursor) :=
  match typeByte &&& 0x07 with
  | 1 => readField "length" 1 c
  | 2 => readField "length" 2 c
  | 3 => readField "length" 3 c
  | 4 => readField "length" 4 c
  | 0 => .error (.other
      s!"tlv: fixed-length record (LLL=000) at offset {c.offset - 1} requires the object model")
  | _ => .error (.other s!"tlv: reserved length type at offset {c.offset - 1}")

/-- The body of the loop of `decodeTLV`, for a record that starts with `typeByte`
and goes on at the cursor. -/
def readRecord (typeByte : UInt8) (c : Cursor) : Except Err ((Nat × Bytes) × Cursor) :=
  if (typeByte >>> 6) &&& 0x03 ≠ 0x03 then
    .error (.other (s!"tlv: unsupported type {(typeByte >>> 6) &&& 0x03} at offset " ++
      s!"{c.offset - 1} (only Resource with Value)"))
  else do
    let (id, c) ← readIdentifier typeByte c
    let (length, c) ← readLength typeByte c
    if c.data.length < length then
      .error (.other s!"tlv: value length {length} exceeds data at offset {c.offset}")
    else .ok ((id, c.data.take length), c.skip length)

variable {c c' : Cursor} {typeByte : UInt8} {entries : List TlvEntry}

variable {n : Nat} {e : TlvEntry} {idFlag lenFlag : UInt8}

theorem readField_length {what : String} {width : Nat} (h : readField what width c = .ok (n, c')) :
    c'.data.length ≤ c.data.length := by
  unfold readField at h
  split at h
  · cases h
  cases h
  simp [Cursor.skip]

theorem readIdentifier_length (h : readIdentifier typeByte c = .ok (n, c')) :
    c'.data.length ≤ c.data.length := by
  unfold readIdentifier at h
  split at h
  · exact readField_length h
  · exact readField_length h
  · exact readField_length h
  · cases h

theorem readLength_length (h : readLength typeByte c = .ok (n, c')) :
    c'.data.length ≤ c.data.length := by
  unfold readLength at h
  split at h
  · exact readField_length h
  · exact readField_length h
  · exact readField_length h
  · exact readField_length h
  · cases h
  · cases h

theorem readRecord_length {r : Nat × Bytes} (h : readRecord typeByte c = .ok (r, c')) :
    c'.data.length ≤ c.data.length := by
  unfold readRecord at h
  split at h
  · cases h
  cases hid : readIdentifier typeByte c with
  | error e =>
    rw [hid] at h
    cases h
  | ok p =>
    obtain ⟨id, c1⟩ := p
    cases hlen : readLength typeByte c1 with
    | error e =>
      simp only [hid, hlen, bind, Except.bind] at h
      cases h
    | ok q =>
      obtain ⟨length, c2⟩ := q
      simp only [hid, hlen, bind, Except.bind] at h
      split at h
      · cases h
      cases h
      have h1 := readIdentifier_length hid
      have h2 := readLength_length hlen
      simp only [Cursor.skip, List.length_drop]
      omega

variable (resolver : Option (Int → ResourceType))

def resolveType (id : Int) : ResourceType :=
  match resolver with
  | none => .resourceOpaque
  | some resolve => resolve id

/-- The loop of `decodeTLV`; the records it appends to `results` come in this order,
and an error drops them. -/
def decodeTLVLoop (c : Cursor) : Except Err (List TlvResource) :=
  match c with
  | ⟨_, []⟩ => .ok []
  | ⟨offset, typeByte :: rest⟩ =>
    match _hr : readRecord typeByte ⟨offset + 1, rest⟩ with
    | .error e => .error e
    | .ok (r, next) =>
      (decodeTLVLoop next).map (⟨r.1, resolveType resolver r.1, r.2⟩ :: ·)
termination_by c.data.length
decreasing_by exact Nat.lt_succ_of_le (readRecord_length _hr)

theorem decodeTLVLoop_nil (offset : Nat) : decodeTLVLoop resolver ⟨offset, []⟩ = .ok [] := by
  rw [decodeTLVLoop]

theorem decodeTLVLoop_record {rest : Bytes} {offset : Nat} {r : Nat × Bytes} {next : Cursor}
    (h : readRecord typeByte ⟨offset + 1, rest⟩ = .ok (r, next)) :
    decodeTLVLoop none ⟨offset, typeByte :: rest⟩ =
      (decodeTLVLoop none next).map (⟨r.1, .resourceOpaque, r.2⟩ :: ·) := by
  rw [decodeTLVLoop]
  split
  · rename_i herr
    rw [h] at herr
    cases herr
  rename_i hok
  rw [h] at hok
  cases hok
  rfl

def decodeTLVWith (data : Bytes) : Except Err (List TlvResource) :=
  decodeTLVLoop resolver ⟨0, data⟩

def decodeTLV (data : Bytes) : Except Err (List TlvResource) := decodeTLVWith none data

/-! ### What is encoded -/

def TlvEntry.InRange (e : TlvEntry) : Prop :=
  0 ≤ e.resourceID ∧ e.resourceID ≤ 0xFFFFFFFF ∧ e.value.length ≤ 0xFFFF

instance (e : TlvEntry) : Decidable e.InRange := inferInstanceAs (Decidable (_ ∧ _ ∧ _))

theorem encodeEntry_inRange (h : e.InRange) : encodeEntry e = .ok (record e) := by
  obtain ⟨h0, h1, h2⟩ := h
  rw [encodeEntry, if_neg (by omega), if_neg (by omega)]

theorem encodeEntry_outOfRange (h : ¬ e.InRange) : ∃ err, encodeEntry e = .error err := by
  unfold encodeEntry
  split
  · exact ⟨_, rfl⟩
  split
  · exact ⟨_, rfl⟩
  · exact absurd ⟨by omega, by omega, by omega⟩ h

/-- What is already in the buffer stays in front. -/
theorem encodeTLVLoop_eq (buf : Bytes) (entries : List TlvEntry) :
    encodeTLVLoop buf entries = (encodeTLV entries).map (buf ++ ·) := by
  unfold encodeTLV
  induction entries generalizing buf with
  | nil => simp [encodeTLVLoop, Except.map]
  | cons e entries ih =>
    simp only [encodeTLVLoop, bind, Except.bind]
    cases encodeEntry e with
    | error err => rfl
    | ok r =>
      simp only
      rw [ih (buf ++ r), ih ([] ++ r)]
      cases encodeTLVLoop [] entries with
      | error err => rfl
      | ok more => simp [Except.map]

theorem encodeTLV_cons (e : TlvEntry) (entries : List TlvEntry) : encodeTLV (e :: entries) =
      (encodeEntry e).bind fun r => (encodeTLV entries).map (r ++ ·) := by
  refine congrArg ((encodeEntry e).bind ·) (funext fun r => ?_)
  exact encodeTLVLoop_eq r entries

/-- **The encoding of a concatenation** is the concatenation of the encodings, and
fails where the first of the two that fails does. -/
theorem encodeTLV_append (entries more : List TlvEntry) : encodeTLV (entries ++ more) =
      (encodeTLV entries).bind fun a => (encodeTLV more).map (a ++ ·) := by
  induction entries with
  | nil =>
    cases h : encodeTLV more with
    | error err | ok b => exact h
  | cons e entries ih =>
    rw [List.cons_append, encodeTLV_cons, encodeTLV_cons, ih]
    cases encodeEntry e with
    | error err => rfl
    | ok r =>
      cases encodeTLV entries with
      | error err => rfl
      | ok a =>
        cases encodeTLV more with
        | error err => rfl
        | ok b => simp [Except.bind, Except.map]

/-- **What `EncodeTLV` writes**: the records, one after the other. -/
theorem encodeTLV_inRange (h : ∀ e ∈ entries, e.InRange) :
    encodeTLV entries = .ok (entries.flatMap record) := by
  induction entries with
  | nil => rfl
  | cons e entries ih =>
    rw [encodeTLV_cons, encodeEntry_inRange (h e List.mem_cons_self),
      ih fun e he => h e (List.mem_cons_of_mem _ he)]
    rfl

theorem encodeTLV_outOfRange (h : ∃ e ∈ entries, ¬ e.InRange) :
    ∃ err, encodeTLV entries = .error err := by
  induction entries with
  | nil =>
    obtain ⟨e, he, -⟩ := h
    cases he
  | cons e entries ih =>
    rw [encodeTLV_cons]
    by_cases he : e.InRange
    · obtain ⟨e', hmem, hout⟩ := h
      rcases List.mem_cons.mp hmem with rfl | hmem
      · exact absurd he hout
      obtain ⟨err, herr⟩ := ih ⟨e', hmem, hout⟩
      rw [encodeEntry_inRange he, herr]
      exact ⟨err, rfl⟩
    obtain ⟨err, herr⟩ := encodeEntry_outOfRange he
    rw [herr]
    exact ⟨err, rfl⟩

/-! ### Reading it back -/

theorem readField_putBE {what : String} {width : Nat} (h : n < 256 ^ width) (offset : Nat)
    (rest : Bytes) :
    readField what width ⟨offset, putBE width n ++ rest⟩ = .ok (n, ⟨offset + width, rest⟩) := by
  have hlen : (putBE width n).length = width := length_putBE width n
  rw [readField]
  simp [Cursor.skip, List.take_left' hlen, List.drop_left' hlen, beNat_putBE_of_lt h]

/-- The flags of the type byte are read back, whichever identifier and length they
are of. -/
theorem readIdentifier_flag (h : lenFlag = tlvLen8 ∨ lenFlag = tlvLen16) (c : Cursor) :
    readIdentifier (tlvResourceWithValue ||| tlvID8 ||| lenFlag) c = readField "identifier" 1 c ∧
    readIdentifier (tlvResourceWithValue ||| tlvID16 ||| lenFlag) c = readField "identifier" 2 c ∧
    readIdentifier (tlvResourceWithValue ||| tlvID32 ||| lenFlag) c =
      readField "identifier" 4 c := by
  rcases h with rfl | rfl <;> exact ⟨rfl, rfl, rfl⟩

theorem readLength_flag (h : idFlag = tlvID8 ∨ idFlag = tlvID16 ∨ idFlag = tlvID32) (c : Cursor) :
    readLength (tlvResourceWithValue ||| idFlag ||| tlvLen8) c = readField "length" 1 c ∧
    readLength (tlvResourceWithValue ||| idFlag ||| tlvLen16) c = readField "length" 2 c := by
  rcases h with rfl | rfl | rfl <;> exact ⟨rfl, rfl⟩

theorem identifierField_flag (id : Int) : (identifierField id).1 = tlvID8 ∨
    (identifierField id).1 = tlvID16 ∨ (identifierField id).1 = tlvID32 := by
  unfold identifierField
  split
  · exact .inl rfl
  split
  · exact .inr (.inl rfl)
  · exact .inr (.inr rfl)

theorem lengthField_flag (n : Nat) :
    (lengthField n).1 = tlvLen8 ∨ (lengthField n).1 = tlvLen16 := by
  unfold lengthField
  split
  · exact .inl rfl
  · exact .inr rfl

theorem readIdentifier_field {id : Int} (h0 : 0 ≤ id) (h1 : id ≤ 0xFFFFFFFF)
    (hl : lenFlag = tlvLen8 ∨ lenFlag = tlvLen16) (offset : Nat) (rest : Bytes) :
    readIdentifier (tlvResourceWithValue ||| (identifierField id).1 ||| lenFlag)
        ⟨offset, (identifierField id).2 ++ rest⟩ =
      .ok (id.toNat, ⟨offset + (identifierField id).2.length, rest⟩) := by
  obtain ⟨h8, h16, h32⟩ := readIdentifier_flag hl ⟨offset, (identifierField id).2 ++ rest⟩
  unfold identifierField at h8 h16 h32 ⊢
  split
  · rw [if_pos ‹_›] at h8
    rw [h8, readField_putBE (by omega), length_putBE]
  rw [if_neg ‹_›] at h16 h32
  split
  · rw [if_pos ‹_›] at h16
    rw [h16, readField_putBE (by omega), length_putBE]
  rw [if_neg ‹_›] at h32
  rw [h32, readField_putBE (by omega), length_putBE]

theorem readLength_field (h : n ≤ 0xFFFF)
    (hi : idFlag = tlvID8 ∨ idFlag = tlvID16 ∨ idFlag = tlvID32) (offset : Nat) (rest : Bytes) :
    readLength (tlvResourceWithValue ||| idFlag ||| (lengthField n).1)
        ⟨offset, (lengthField n).2 ++ rest⟩ =
      .ok (n, ⟨offset + (lengthField n).2.length, rest⟩) := by
  obtain ⟨h8, h16⟩ := readLength_flag hi ⟨offset, (lengthField n).2 ++ rest⟩
  unfold lengthField at h8 h16 ⊢
  split
  · rw [if_pos ‹_›] at h8
    rw [h8, readField_putBE (by omega), length_putBE]
  rw [if_neg ‹_›] at h16
  rw [h16, readField_putBE (by omega), length_putBE]

theorem typeByte_kind (hi : idFlag = tlvID8 ∨ idFlag = tlvID16 ∨ idFlag = tlvID32)
    (hl : lenFlag = tlvLen8 ∨ lenFlag = tlvLen16) :
    ((tlvResourceWithValue ||| idFlag ||| lenFlag) >>> 6) &&& 0x03 = 0x03 := by
  rcases hi with rfl | rfl | rfl <;> rcases hl with rfl | rfl <;> rfl

/-- The type byte of a record, and what follows it. -/
theorem record_eq (e : TlvEntry) : record e =
    (tlvResourceWithValue ||| (identifierField e.resourceID).1 ||| (lengthField e.value.length).1) ::
      ((identifierField e.resourceID).2 ++ (lengthField e.value.length).2 ++ e.value) := rfl

/-- **A record is read back whole**, and reading goes on behind it. -/
theorem readRecord_record (h : e.InRange) (offset : Nat) (rest : Bytes) : ∃ offset', readRecord
        (tlvResourceWithValue ||| (identifierField e.resourceID).1 |||
          (lengthField e.value.length).1)
        ⟨offset, (identifierField e.resourceID).2 ++ (lengthField e.value.length).2 ++ e.value ++
          rest⟩ = .ok ((e.resourceID.toNat, e.value), ⟨offset', rest⟩) := by
  obtain ⟨h0, h1, h2⟩ := h
  have hi := identifierField_flag e.resourceID
  have hl := lengthField_flag e.value.length
  rw [readRecord, if_neg (fun hne => hne (typeByte_kind hi hl)), List.append_assoc,
    List.append_assoc, readIdentifier_field h0 h1 hl]
  simp only [bind, Except.bind]
  rw [readLength_field h2 hi]
  simp only
  rw [if_neg (by simp), List.take_left, Cursor.skip, List.drop_left]
  exact ⟨_, rfl⟩

/-- `DecodeTLV` gives the bytes back without a type. -/
def TlvEntry.raw (e : TlvEntry) : TlvResource := ⟨e.resourceID, .resourceOpaque, e.value⟩

theorem decodeTLVLoop_records (h : ∀ e ∈ entries, e.InRange) (offset : Nat) :
    decodeTLVLoop none ⟨offset, entries.flatMap record⟩ = .ok (entries.map TlvEntry.raw) := by
  induction entries generalizing offset with
  | nil => rw [List.flatMap_nil, decodeTLVLoop_nil, List.map_nil]
  | cons e entries ih =>
    have he := h e List.mem_cons_self
    obtain ⟨offset', hrec⟩ := readRecord_record he (offset + 1) (entries.flatMap record)
    have hid : (e.resourceID.toNat) = e.resourceID := Int.toNat_of_nonneg he.1
    rw [List.flatMap_cons, record_eq, List.cons_append, decodeTLVLoop_record hrec,
      ih fun e he => h e (List.mem_cons_of_mem _ he), hid]
    rfl

/-- **The TLV round trip**: entries in range are encoded and decoded again, an entry
out of range is refused, and encoding distributes over concatenation. -/
theorem tlv_round_trip (entries : List TlvEntry) :
    ((∀ e ∈ entries, e.InRange) →
      ∃ data, encodeTLV entries = .ok data ∧ decodeTLV data = .ok (entries.map TlvEntry.raw)) ∧
    ((∃ e ∈ entries, ¬ e.InRange) → ∃ err, encodeTLV entries = .error err) ∧
    ∀ more, encodeTLV (entries ++ more) =
      (encodeTLV entries).bind fun a => (encodeTLV more).map (a ++ ·) := by
  refine ⟨fun h => ⟨_, encodeTLV_inRange h, ?_⟩, encodeTLV_outOfRange, encodeTLV_append entries⟩
  rw [decodeTLV, decodeTLVWith, decodeTLVLoop_records h]

end SharkSocket.Lwm2m
