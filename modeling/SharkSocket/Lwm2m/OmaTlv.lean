import SharkSocket.Lwm2m.Tlv

/-!
# The TLV format of LwM2M devices

The comment over `EncodeTLV` says that its output is parseable by real LwM2M
devices.  `omaDecode` reads the format those devices use.  Its type byte has one
bit for the width of the identifier, bit 5, then two bits for the width of the
length field, bits 4-3, and in bits 2-0 the length itself when there is no length
field.  The codec of the repository reads the same byte as two bits for the
identifier and three for the width of the length.

The two layouts disagree on every record.  The smallest one has the flags `0xC1`:
for the repository a length byte follows the identifier, for a device the value is
one byte long and that byte is the length.  So a device reads back what was
encoded only when nothing was (`oma_reads_iff`).
-/

namespace SharkSocket.Lwm2m

open Lib

inductive OmaKind
  | objectInstance
  | resourceInstance
  | multipleResource
  | resourceWithValue
  deriving DecidableEq, Repr

structure OmaRecord where
  kind : OmaKind
  identifier : Nat
  value : Bytes
  deriving DecidableEq, Repr

def omaKind (typeByte : UInt8) : OmaKind :=
  match typeByte.toNat / 64 with
  | 0 => .objectInstance
  | 1 => .resourceInstance
  | 2 => .multipleResource
  | _ => .resourceWithValue

def omaIdentifierWidth (typeByte : UInt8) : Nat := if typeByte.toNat / 32 % 2 = 1 then 2 else 1

def omaLengthWidth (typeByte : UInt8) : Nat := typeByte.toNat / 8 % 4

/-- The length in the field `bytes` after the identifier, or in the type byte when
there is no such field. -/
def omaLength (typeByte : UInt8) (bytes : Bytes) : Nat :=
  if omaLengthWidth typeByte = 0 then typeByte.toNat % 8 else beNat bytes

/-- The record at the head of the data, and the data behind it. -/
def omaRecord : Bytes → Option (OmaRecord × Bytes)
  | [] => none
  | typeByte :: data =>
    let idWidth := omaIdentifierWidth typeByte
    let lenWidth := omaLengthWidth typeByte
    let length := omaLength typeByte ((data.drop idWidth).take lenWidth)
    let rest := data.drop (idWidth + lenWidth)
    if data.length < idWidth + lenWidth + length then none
    else some (⟨omaKind typeByte, beNat (data.take idWidth), rest.take length⟩, rest.drop length)

variable {r : OmaRecord} {typeByte : UInt8} {data : Bytes}

theorem omaRecord_length {data rest : Bytes} (h : omaRecord data = some (r, rest)) :
    rest.length < data.length := by
  cases data with
  | nil => cases h
  | cons typeByte data =>
    simp only [omaRecord] at h
    split at h
    · cases h
    cases h
    simp only [List.length_drop, List.length_cons]
    omega

def omaDecode (data : Bytes) : Option (List OmaRecord) :=
  match data with
  | [] => some []
  | typeByte :: data =>
    match _hr : omaRecord (typeByte :: data) with
    | none => none
    | some (r, rest) => (omaDecode rest).map (r :: ·)
termination_by data.length
decreasing_by exact omaRecord_length _hr

/-- What a device should read for an entry. -/
def TlvEntry.oma (e : TlvEntry) : OmaRecord := ⟨.resourceWithValue, e.resourceID.toNat, e.value⟩

/-! ### The first record -/

theorem omaDecode_nil : omaDecode [] = some [] := by
  rw [omaDecode]

theorem omaDecode_of_record {data rest : Bytes} (h : omaRecord (typeByte :: data) = some (r, rest)) :
    omaDecode (typeByte :: data) = (omaDecode rest).map (r :: ·) := by
  rw [omaDecode]
  split
  · rename_i hnone
    rw [h] at hnone
    cases hnone
  rename_i hsome
  rw [h] at hsome
  cases hsome
  rfl

/-- Reading a list takes reading its first record. -/
theorem omaDecode_cons {records : List OmaRecord}
    (h : omaDecode (typeByte :: data) = some (r :: records)) :
    ∃ rest, omaRecord (typeByte :: data) = some (r, rest) ∧ omaDecode rest = some records := by
  rw [omaDecode] at h
  split at h
  · cases h
  rename_i r' rest hr
  obtain ⟨records', hrest, heq⟩ := Option.map_eq_some_iff.mp h
  cases heq
  exact ⟨rest, hr, hrest⟩

theorem omaDecode_ne_nil : omaDecode (typeByte :: data) ≠ some [] := by
  intro h
  rw [omaDecode] at h
  split at h
  · cases h
  obtain ⟨_, -, heq⟩ := Option.map_eq_some_iff.mp h
  cases heq

/-- A byte below 64 starts an Object Instance, never a Resource with Value. -/
theorem omaDecode_objectInstance (h : typeByte.toNat / 64 = 0) (entries : List TlvEntry) :
    omaDecode (typeByte :: data) ≠ some (entries.map TlvEntry.oma) := by
  intro hd
  cases entries with
  | nil => exact omaDecode_ne_nil hd
  | cons e entries =>
    obtain ⟨rest, hr, -⟩ := omaDecode_cons hd
    simp only [omaRecord] at hr
    split at hr
    · cases hr
    rw [Option.some_inj, Prod.mk.injEq, OmaRecord.mk.injEq, omaKind, h] at hr
    exact OmaKind.noConfusion hr.1.1

/-- A device takes one byte for the identifier and no length field: the value it
reads is the length that was meant. -/
theorem omaRecord_short {n : Nat} {flag : UInt8} {lenBytes data : Bytes} {rest : Bytes}
    (hid : omaIdentifierWidth flag = 1) (hlen : omaLengthWidth flag = 0)
    (hl : flag.toNat % 8 = lenBytes.length)
    (h : omaRecord (flag :: (putBE 1 n ++ lenBytes ++ data)) = some (r, rest)) :
    r.value = lenBytes ∧ rest = data := by
  simp only [omaRecord, hid, hlen, omaLength, if_true, hl, Nat.add_zero] at h
  split at h
  · cases h
  have hdrop : (putBE 1 n ++ lenBytes ++ data).drop 1 = lenBytes ++ data := by
    rw [List.append_assoc, List.drop_left' (length_putBE 1 n)]
  rw [hdrop, List.take_left, List.drop_left] at h
  cases h
  exact ⟨rfl, rfl⟩

/-- A device takes one byte of a wide identifier. -/
theorem omaRecord_identifier_lt {flag : UInt8} {rest : Bytes} (hid : omaIdentifierWidth flag = 1)
    (h : omaRecord (flag :: data) = some (r, rest)) : r.identifier < 256 := by
  simp only [omaRecord, hid] at h
  split at h
  · cases h
  cases h
  refine (beNat_lt _).trans_le ?_
  calc 256 ^ (data.take 1).length ≤ 256 ^ 1 :=
        Nat.pow_le_pow_right (by decide) (List.length_take_le 1 data)
    _ = 256 := rfl

/-- **No record is read as it was written.** -/
theorem omaDecode_record_ne {e : TlvEntry} (h0 : 0 ≤ e.resourceID) (h1 : e.resourceID ≤ 0xFFFF)
    (data : Bytes) (entries : List TlvEntry) :
    omaDecode (record e ++ data) ≠ some ((e :: entries).map TlvEntry.oma) := by
  intro hd
  rw [record_eq, List.cons_append] at hd
  obtain ⟨rest, hr, hrest⟩ := omaDecode_cons hd
  by_cases hnarrow : e.resourceID ≤ 0xFF
  · -- an 8-bit identifier: the device takes the length for the value
    rw [identifierField, if_pos hnarrow] at hr
    by_cases hshort : e.value.length ≤ 0xFF
    · rw [lengthField, if_pos hshort, List.append_assoc] at hr
      dsimp only at hr
      obtain ⟨hv, hdata⟩ := omaRecord_short (by decide) (by decide)
        (by rw [length_putBE]; decide) hr
      have hv : e.value = putBE 1 e.value.length := hv
      have hone : e.value.length = 1 := by rw [hv, length_putBE]
      rw [hone] at hv
      rw [hdata, hv] at hrest
      exact omaDecode_objectInstance (by decide) entries hrest
    · rw [lengthField, if_neg hshort, List.append_assoc] at hr
      dsimp only at hr
      obtain ⟨hv, -⟩ := omaRecord_short (by decide) (by decide) (by rw [length_putBE]; decide) hr
      have hv : e.value = putBE 2 e.value.length := hv
      rw [hv, length_putBE] at hshort
      exact hshort (by decide)
  · -- a 16-bit identifier: the device takes one byte of it
    rw [identifierField, if_neg hnarrow, if_pos h1] at hr
    dsimp only at hr
    have hlt : e.resourceID.toNat < 256 := by
      rcases lengthField_flag e.value.length with hf | hf
      · rw [hf] at hr
        exact omaRecord_identifier_lt (by decide) hr
      rw [hf] at hr
      exact omaRecord_identifier_lt (by decide) hr
    omega

/-- **A device reads what was encoded only when that is nothing.** -/
theorem oma_reads_iff (entries : List TlvEntry)
    (h : ∀ e ∈ entries, 0 ≤ e.resourceID ∧ e.resourceID ≤ 0xFFFF ∧ e.value.length ≤ 0xFFFF) :
    ∃ data, encodeTLV entries = .ok data ∧
      (omaDecode data = some (entries.map TlvEntry.oma) ↔ entries = []) := by
  have hrange : ∀ e ∈ entries, e.InRange := fun e he =>
    ⟨(h e he).1, (h e he).2.1.trans (by decide), (h e he).2.2⟩
  refine ⟨_, encodeTLV_inRange hrange, ?_⟩
  cases entries with
  | nil =>
    simp [omaDecode_nil]
  | cons e entries =>
    have he := h e List.mem_cons_self
    exact ⟨fun hd => absurd hd (omaDecode_record_ne he.1 he.2.1 _ entries), fun hn => by cases hn⟩

def temperature : TlvEntry := ⟨5, .resourceInteger, [1, 2, 3]⟩

theorem oma_reads_iff_temperature :
    ∃ data, encodeTLV [temperature] = .ok data ∧
      omaDecode data ≠ some [temperature.oma] := by
  obtain ⟨data, hdata, hiff⟩ := oma_reads_iff [temperature] (by decide)
  exact ⟨data, hdata, fun hc => List.cons_ne_nil _ _ (hiff.mp hc)⟩

/-- **A device reads two other records**: the length as a value of one byte, and an
Object Instance made of the value. -/
theorem temperature_misread :
    encodeTLV [temperature] = .ok [0xC1, 5, 3, 1, 2, 3] ∧
      omaDecode [0xC1, 5, 3, 1, 2, 3] =
        some [⟨.resourceWithValue, 5, [3]⟩, ⟨.objectInstance, 2, [3]⟩] := by
  refine ⟨rfl, ?_⟩
  have h1 : omaRecord [0xC1, 5, 3, 1, 2, 3] = some (⟨.resourceWithValue, 5, [3]⟩, [1, 2, 3]) := by
    decide
  have h2 : omaRecord [1, 2, 3] = some (⟨.objectInstance, 2, [3]⟩, []) := by decide
  rw [omaDecode_of_record h1, omaDecode_of_record h2, omaDecode_nil]
  rfl

end SharkSocket.Lwm2m
