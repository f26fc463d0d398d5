import SharkSocket.Lib.Fallible
import SharkSocket.Lwm2m.Tlv

/-!
# What `DecodeTLV` accepts

The comment over the codec says what a record is: a type byte with the bits `TT`, a
reserved bit, `II` and `LLL`, then an identifier, a length and a value.  A `TlvRecord`
is one that the decoder supports, with the fields in the widths that the type byte
gives them.

* `readRecord_eq_ok`: a turn of the loop takes one such record off the data;
* `decodeTLV_eq_ok`: the loop accepts the concatenations of them;
* `decodeTLV_documented`: these are the documented ones, if the reserved bit is clear;
* `decodeTLV_reserved`: the decoder does not look at that bit.

The source indexes into the data, and a Go index out of range panics.  `decodeAt` is the
loop with its offset, where a read outside the data is a `Fault`.  It never happens, and
the loop computes what the reading with a cursor does (`decodeAt_eq`).
-/

namespace SharkSocket.Lwm2m

open Lib

/-! ### Records -/

/-- The values of `II` with a meaning. -/
inductive IdWidth
  | id8
  | id16
  | id32
  deriving DecidableEq, Repr

namespace IdWidth

def code : IdWidth → UInt8
  | id8 => 0
  | id16 => 1
  | id32 => 2

def bytes : IdWidth → Nat
  | id8 => 1
  | id16 => 2
  | id32 => 4

end IdWidth

/-- The values of `LLL` with a length field. -/
inductive LenWidth
  | len8
  | len16
  | len24
  | len32
  deriving DecidableEq, Repr

namespace LenWidth

def code : LenWidth → UInt8
  | len8 => 1
  | len16 => 2
  | len24 => 3
  | len32 => 4

def bytes : LenWidth → Nat
  | len8 => 1
  | len16 => 2
  | len24 => 3
  | len32 => 4

end LenWidth

/-- Bits 7-6 are `TT = 11`, bit 5 is reserved, bits 4-3 are `II` and bits 2-0 `LLL`. -/
def typeByteOf (reserved : Bool) (idWidth : IdWidth) (lenWidth : LenWidth) : UInt8 :=
  tlvResourceWithValue ||| (if reserved then (0x20 : UInt8) else 0) ||| (idWidth.code <<< 3) |||
    lenWidth.code

/-- A complete record.  The identifier and the length of the value fit their fields. -/
structure TlvRecord where
  reserved : Bool
  idWidth : IdWidth
  lenWidth : LenWidth
  identifier : Nat
  value : Bytes
  identifier_lt : identifier < 256 ^ idWidth.bytes
  length_lt : value.length < 256 ^ lenWidth.bytes

namespace TlvRecord

def body (r : TlvRecord) : Bytes :=
  putBE r.idWidth.bytes r.identifier ++ putBE r.lenWidth.bytes r.value.length ++ r.value

def bytes (r : TlvRecord) : Bytes := typeByteOf r.reserved r.idWidth r.lenWidth :: r.body

/-- What `DecodeTLV` returns for the record. -/
def resource (r : TlvRecord) : TlvResource := ⟨r.identifier, .resourceOpaque, r.value⟩

end TlvRecord

/-! ### One record -/

variable {c c' : Cursor} {n : Nat}

theorem readField_eq_ok {what : String} {width : Nat} : readField what width c = .ok (n, c') ↔
      n < 256 ^ width ∧ c.data = putBE width n ++ c'.data ∧ c'.offset = c.offset + width := by
  constructor
  · intro h
    unfold readField at h
    split at h
    · cases h
    rename_i hlen
    cases h
    have hwidth : (c.data.take width).length = width :=
      List.length_take_of_le (Nat.le_of_not_lt hlen)
    have hlt := beNat_lt (c.data.take width)
    rw [hwidth] at hlt
    have hput : putBE width (beNat (c.data.take width)) = c.data.take width :=
      beNat_inj (by rw [length_putBE, hwidth]) (beNat_putBE_of_lt hlt)
    refine ⟨hlt, ?_, rfl⟩
    rw [hput]
    exact (List.take_append_drop width c.data).symm
  · rintro ⟨hlt, hdata, hoffset⟩
    obtain ⟨offset, data⟩ := c
    obtain ⟨offset', data'⟩ := c'
    obtain rfl : offset' = offset + width := hoffset
    obtain rfl : data = putBE width n ++ data' := hdata
    exact readField_putBE hlt offset data'

variable {typeByte : UInt8} {data : Bytes} {offset : Nat}

theorem readIdentifier_eq_ok : readIdentifier typeByte c = .ok (n, c') ↔
      ∃ w : IdWidth, (typeByte >>> 3) &&& 0x03 = w.code ∧ n < 256 ^ w.bytes ∧
        c.data = putBE w.bytes n ++ c'.data ∧ c'.offset = c.offset + w.bytes := by
  constructor
  · intro h
    unfold readIdentifier at h
    split at h
    · exact ⟨.id8, ‹_›, readField_eq_ok.mp h⟩
    · exact ⟨.id16, ‹_›, readField_eq_ok.mp h⟩
    · exact ⟨.id32, ‹_›, readField_eq_ok.mp h⟩
    · cases h
  · rintro ⟨w, hcode, hfield⟩
    rw [readIdentifier, hcode]
    cases w with
    | id8 | id16 | id32 => exact readField_eq_ok.mpr hfield

theorem readLength_eq_ok : readLength typeByte c = .ok (n, c') ↔
      ∃ w : LenWidth, typeByte &&& 0x07 = w.code ∧ n < 256 ^ w.bytes ∧
        c.data = putBE w.bytes n ++ c'.data ∧ c'.offset = c.offset + w.bytes := by
  constructor
  · intro h
    unfold readLength at h
    split at h
    · exact ⟨.len8, ‹_›, readField_eq_ok.mp h⟩
    · exact ⟨.len16, ‹_›, readField_eq_ok.mp h⟩
    · exact ⟨.len24, ‹_›, readField_eq_ok.mp h⟩
    · exact ⟨.len32, ‹_›, readField_eq_ok.mp h⟩
    · cases h
    · cases h
  · rintro ⟨w, hcode, hfield⟩
    rw [readLength, hcode]
    cases w with
    | len8 | len16 | len24 | len32 => exact readField_eq_ok.mpr hfield

/-- The three fields that the decoder looks at, of a type byte with any reserved bit. -/
theorem typeByteOf_fields (reserved : Bool) (i : IdWidth) (l : LenWidth) :
    (typeByteOf reserved i l >>> 6) &&& 0x03 = 0x03 ∧
      (typeByteOf reserved i l >>> 3) &&& 0x03 = i.code ∧
      typeByteOf reserved i l &&& 0x07 = l.code := by
  cases reserved <;> cases i <;> cases l <;> decide

/-- They leave one bit of the byte open. -/
theorem eq_typeByteOf_of_fields {b : UInt8} {i : IdWidth} {l : LenWidth}
    (hkind : (b >>> 6) &&& 0x03 = 0x03) (hid : (b >>> 3) &&& 0x03 = i.code)
    (hlen : b &&& 0x07 = l.code) : ∃ reserved, b = typeByteOf reserved i l := by
  have hall : ∀ n < 256, ((UInt8.ofNat n) >>> 6) &&& 0x03 = 0x03 →
      UInt8.ofNat n = typeByteOf false i l ∨ UInt8.ofNat n = typeByteOf true i l ∨
        (UInt8.ofNat n >>> 3) &&& 0x03 ≠ i.code ∨ UInt8.ofNat n &&& 0x07 ≠ l.code := by
    cases i <;> cases l <;> decide +kernel
  have hb := hall b.toNat b.toNat_lt
  rw [UInt8.ofNat_toNat] at hb
  rcases hb hkind with h | h | h | h
  · exact ⟨false, h⟩
  · exact ⟨true, h⟩
  · exact absurd hid h
  · exact absurd hlen h

/-- **What a turn of the loop takes off the data is a record**, and every record in front
of anything is taken. -/
theorem readRecord_eq_ok {rest : Bytes} {offset : Nat} {value : Bytes} {next : Cursor} :
    readRecord typeByte ⟨offset, rest⟩ = .ok ((n, value), next) ↔
      ∃ r : TlvRecord, typeByte :: rest = r.bytes ++ next.data ∧ r.identifier = n ∧
        r.value = value ∧ next.offset = offset + r.body.length := by
  constructor
  · intro h
    unfold readRecord at h
    split at h
    · cases h
    rename_i hkind
    obtain ⟨⟨n', c1⟩, hid, h⟩ := bind_eq_ok.mp h
    obtain ⟨⟨length, c2⟩, hlen, h⟩ := bind_eq_ok.mp h
    dsimp only at h
    split at h
    · cases h
    rename_i hfits
    cases h
    obtain ⟨i, hi, hn, hdata1, hoff1⟩ := readIdentifier_eq_ok.mp hid
    obtain ⟨l, hl, hlt, hdata2, hoff2⟩ := readLength_eq_ok.mp hlen
    obtain ⟨reserved, rfl⟩ := eq_typeByteOf_of_fields (not_not.mp hkind) hi hl
    have hvalue : (c2.data.take length).length = length :=
      List.length_take_of_le (Nat.le_of_not_lt hfits)
    refine ⟨⟨reserved, i, l, n, c2.data.take length, hn, by rwa [hvalue]⟩, ?_, rfl, rfl, ?_⟩
    · show _ = typeByteOf reserved i l ::
        (putBE i.bytes n ++ putBE l.bytes (c2.data.take length).length ++
          c2.data.take length) ++ c2.data.drop length
      rw [hvalue, List.cons_append, List.append_assoc, List.take_append_drop,
        List.append_assoc, ← hdata2, ← hdata1]
    · have hstart : c1.offset = offset + i.bytes := hoff1
      show c2.offset + length = offset + (putBE i.bytes n ++
        putBE l.bytes (c2.data.take length).length ++ c2.data.take length).length
      rw [List.length_append, List.length_append, length_putBE, length_putBE, hoff2]
      omega
  · rintro ⟨r, hbytes, rfl, rfl, hoffset⟩
    obtain ⟨offset', data'⟩ := next
    obtain ⟨rfl, rfl⟩ := List.cons.inj hbytes
    cases hoffset
    obtain ⟨hkind, hi, hl⟩ := typeByteOf_fields r.reserved r.idWidth r.lenWidth
    have hid : readIdentifier (typeByteOf r.reserved r.idWidth r.lenWidth)
        ⟨offset, r.body ++ data'⟩ = .ok (r.identifier, ⟨offset + r.idWidth.bytes,
          putBE r.lenWidth.bytes r.value.length ++ (r.value ++ data')⟩) :=
      readIdentifier_eq_ok.mpr
        ⟨r.idWidth, hi, r.identifier_lt, by simp [TlvRecord.body], rfl⟩
    have hlen : readLength (typeByteOf r.reserved r.idWidth r.lenWidth)
        ⟨offset + r.idWidth.bytes, putBE r.lenWidth.bytes r.value.length ++ (r.value ++ data')⟩ =
          .ok (r.value.length, ⟨offset + r.idWidth.bytes + r.lenWidth.bytes, r.value ++ data'⟩) :=
      readLength_eq_ok.mpr ⟨r.lenWidth, hl, r.length_lt, rfl, rfl⟩
    rw [readRecord, if_neg (not_not.mpr hkind)]
    refine bind_eq_ok.mpr ⟨_, hid, bind_eq_ok.mpr ⟨_, hlen, ?_⟩⟩
    dsimp only
    rw [Cursor.skip]
    simp [TlvRecord.body, Nat.add_assoc]

/-! ### The list -/

theorem decodeTLVLoop_concat (records : List TlvRecord) (offset : Nat) :
    decodeTLVLoop none ⟨offset, records.flatMap TlvRecord.bytes⟩ =
      .ok (records.map TlvRecord.resource) := by
  induction records generalizing offset with
  | nil => rw [List.flatMap_nil, decodeTLVLoop_nil, List.map_nil]
  | cons r records ih =>
    have hread : readRecord (typeByteOf r.reserved r.idWidth r.lenWidth)
        ⟨offset + 1, r.body ++ records.flatMap TlvRecord.bytes⟩ =
          .ok ((r.identifier, r.value), ⟨offset + 1 + r.body.length,
            records.flatMap TlvRecord.bytes⟩) :=
      readRecord_eq_ok.mpr ⟨r, rfl, rfl, rfl, rfl⟩
    rw [List.flatMap_cons, TlvRecord.bytes, List.cons_append, decodeTLVLoop_record hread, ih]
    rfl

theorem concat_of_decodeTLVLoop {resources : List TlvResource}
    (h : decodeTLVLoop none c = .ok resources) : ∃ records : List TlvRecord,
      c.data = records.flatMap TlvRecord.bytes ∧ resources = records.map TlvRecord.resource := by
  induction hn : c.data.length using Nat.strong_induction_on generalizing c resources with
  | _ n ih =>
    obtain ⟨offset, data⟩ := c
    cases data with
    | nil =>
      rw [decodeTLVLoop_nil] at h
      cases h
      exact ⟨[], rfl, rfl⟩
    | cons typeByte rest =>
      cases hread : readRecord typeByte ⟨offset + 1, rest⟩ with
      | error e =>
        rw [decodeTLVLoop] at h
        split at h
        · cases h
        rename_i hok
        rw [hread] at hok
        cases hok
      | ok taken =>
        obtain ⟨⟨n', value⟩, next⟩ := taken
        have hless := readRecord_length hread
        obtain ⟨r, hbytes, rfl, rfl, -⟩ := readRecord_eq_ok.mp hread
        rw [decodeTLVLoop_record hread] at h
        cases hrest : decodeTLVLoop none next with
        | error e =>
          rw [hrest] at h
          cases h
        | ok more =>
          rw [hrest] at h
          cases h
          subst hn
          obtain ⟨records, hdata, rfl⟩ := ih _ (Nat.lt_succ_of_le hless) hrest rfl
          refine ⟨r :: records, ?_, rfl⟩
          rw [List.flatMap_cons, ← hdata]
          exact hbytes

/-- **`DecodeTLV` accepts the concatenations of records**, and returns them in order. -/
theorem decodeTLV_eq_ok {resources : List TlvResource} :
    decodeTLV data = .ok resources ↔ ∃ records : List TlvRecord,
      data = records.flatMap TlvRecord.bytes ∧ resources = records.map TlvRecord.resource := by
  constructor
  · intro h
    exact concat_of_decodeTLVLoop h
  · rintro ⟨records, rfl, rfl⟩
    exact decodeTLVLoop_concat records 0

/-! ### One reading -/

theorem typeByteOf_injective {reserved reserved' : Bool} {i i' : IdWidth} {l l' : LenWidth}
    (h : typeByteOf reserved i l = typeByteOf reserved' i' l') :
    reserved = reserved' ∧ i = i' ∧ l = l' := by
  have hbit : ∀ (b : Bool) (i : IdWidth) (l : LenWidth),
      typeByteOf b i l &&& 0x20 = if b then 0x20 else 0 := by
    intro b i l
    cases b <;> cases i <;> cases l <;> decide
  have hi : i.code = i'.code := by
    rw [← (typeByteOf_fields reserved i l).2.1, h, (typeByteOf_fields reserved' i' l').2.1]
  have hl : l.code = l'.code := by
    rw [← (typeByteOf_fields reserved i l).2.2, h, (typeByteOf_fields reserved' i' l').2.2]
  have hb := (hbit reserved i l).symm.trans ((congrArg (· &&& 0x20) h).trans (hbit reserved' i' l'))
  refine ⟨?_, ?_, ?_⟩
  · revert hb
    cases reserved <;> cases reserved' <;> decide
  · revert hi
    cases i <;> cases i' <;> decide
  · revert hl
    cases l <;> cases l' <;> decide

theorem TlvRecord.bytes_append_inj {r r' : TlvRecord} {rest rest' : Bytes}
    (h : r.bytes ++ rest = r'.bytes ++ rest') : r = r' ∧ rest = rest' := by
  have hread := readRecord_eq_ok.mpr
    ⟨r, rfl, rfl, rfl, (rfl : (⟨0 + r.body.length, rest⟩ : Cursor).offset = _)⟩
  have hread' := readRecord_eq_ok.mpr
    ⟨r', rfl, rfl, rfl, (rfl : (⟨0 + r'.body.length, rest'⟩ : Cursor).offset = _)⟩
  obtain ⟨htype, hbody⟩ := List.cons.inj h
  obtain ⟨hreserved, hid, hlen⟩ := typeByteOf_injective htype
  rw [htype] at hread
  have hsame := hread.symm.trans ((congrArg (readRecord _ ⟨0, ·⟩) hbody).trans hread')
  simp only [Except.ok.injEq, Prod.mk.injEq, Cursor.mk.injEq] at hsame
  obtain ⟨⟨hn, hvalue⟩, -, hrest⟩ := hsame
  obtain ⟨a, i, l, n, v, _, _⟩ := r
  obtain ⟨a', i', l', n', v', _, _⟩ := r'
  cases hreserved
  cases hid
  cases hlen
  cases hn
  cases hvalue
  exact ⟨rfl, hrest⟩

/-- **Data is a concatenation of records in one way.** -/
theorem concat_injective : ∀ {records records' : List TlvRecord},
    records.flatMap TlvRecord.bytes = records'.flatMap TlvRecord.bytes → records = records' := by
  intro records
  induction records with
  | nil =>
    intro records' h
    cases records' with
    | nil => rfl
    | cons r' records' => cases h
  | cons r records ih =>
    intro records' h
    cases records' with
    | nil => cases h
    | cons r' records' =>
      obtain ⟨rfl, hrest⟩ := TlvRecord.bytes_append_inj h
      rw [ih hrest]

/-! ### Reads inside the data -/

/-- What ends the decoder early: an error that it returns, or a panic of the runtime. -/
inductive Fault
  | err (e : Err)
  | outOfRange
  deriving DecidableEq, Repr

/-- `data[i]`. -/
def byteAt (data : Bytes) (i : Nat) : Except Fault UInt8 :=
  match data[i]? with
  | some b => .ok b
  | none => .error .outOfRange

/-- `data[i:j]`. -/
def sliceOf (data : Bytes) (i j : Nat) : Except Fault Bytes :=
  if i ≤ j ∧ j ≤ data.length then .ok ((data.take j).drop i) else .error .outOfRange

/-- A number of `width` bytes at the offset, and the offset behind it. -/
def fieldAt (what : String) (width : Nat) (data : Bytes) (offset : Nat) :
    Except Fault (Nat × Nat) :=
  if data.length < offset + width then
    .error (.err (.other s!"tlv: truncated {8 * width}-bit {what} at offset {offset}"))
  else do
    let field ← sliceOf data offset (offset + width)
    .ok (beNat field, offset + width)

def identifierAt (typeByte : UInt8) (data : Bytes) (offset : Nat) : Except Fault (Nat × Nat) :=
  match (typeByte >>> 3) &&& 0x03 with
  | 0 => fieldAt "identifier" 1 data offset
  | 1 => fieldAt "identifier" 2 data offset
  | 2 => fieldAt "identifier" 4 data offset
  | _ => .error (.err (.other s!"tlv: reserved identifier length at offset {offset - 1}"))

def lengthAt (typeByte : UInt8) (data : Bytes) (offset : Nat) : Except Fault (Nat × Nat) :=
  match typeByte &&& 0x07 with
  | 1 => fieldAt "length" 1 data offset
  | 2 => fieldAt "length" 2 data offset
  | 3 => fieldAt "length" 3 data offset
  | 4 => fieldAt "length" 4 data offset
  | 0 => .error (.err (.other
      s!"tlv: fixed-length record (LLL=000) at offset {offset - 1} requires the object model"))
  | _ => .error (.err (.other s!"tlv: reserved length type at offset {offset - 1}"))

def recordAt (typeByte : UInt8) (data : Bytes) (offset : Nat) :
    Except Fault ((Nat × Bytes) × Nat) :=
  if (typeByte >>> 6) &&& 0x03 ≠ 0x03 then
    .error (.err (.other (s!"tlv: unsupported type {(typeByte >>> 6) &&& 0x03} at offset " ++
      s!"{offset - 1} (only Resource with Value)")))
  else do
    let (id, offset) ← identifierAt typeByte data offset
    let (length, offset) ← lengthAt typeByte data offset
    if data.length < offset + length then
      .error (.err (.other s!"tlv: value length {length} exceeds data at offset {offset}"))
    else do
      let value ← sliceOf data offset (offset + length)
      .ok ((id, value), offset + length)

/-- The loop of `decodeTLV` with the offset as the source keeps it.  A record is not empty,
so the length of the data is enough fuel. -/
def decodeAt (resolver : Option (Int → ResourceType)) (data : Bytes) :
    Nat → Nat → Except Fault (List TlvResource)
  | 0, _ => .ok []
  | fuel + 1, offset =>
    if offset < data.length then
      if offset ≥ data.length then
        .error (.err (.other s!"tlv: truncated type byte at offset {offset}"))
      else do
        let typeByte ← byteAt data offset
        let (r, next) ← recordAt typeByte data (offset + 1)
        let results ← decodeAt resolver data fuel next
        .ok (⟨r.1, resolveType resolver r.1, r.2⟩ :: results)
    else .ok []

/-- The cursor at an offset. -/
def cursorAt (data : Bytes) (offset : Nat) : Cursor := ⟨offset, data.drop offset⟩

theorem cursorAt_skip (data : Bytes) (offset n : Nat) :
    (cursorAt data offset).skip n = cursorAt data (offset + n) := by
  simp [cursorAt, Cursor.skip]

theorem length_cursorAt (data : Bytes) (offset : Nat) :
    (cursorAt data offset).data.length = data.length - offset := List.length_drop

theorem sliceOf_eq {offset : Nat} (h : offset + n ≤ data.length) :
    sliceOf data offset (offset + n) = .ok ((cursorAt data offset).data.take n) := by
  rw [sliceOf, if_pos ⟨Nat.le_add_right _ _, h⟩, List.drop_take, Nat.add_sub_cancel_left]
  rfl

/-- A read at an offset does what the read with a cursor does: both fail with the same
error, or both give the same value and end at the same place, which is inside the data. -/
def Agree {α : Type} (data : Bytes) (start : Nat) (x : Except Fault (α × Nat))
    (y : Except Err (α × Cursor)) : Prop :=
  (∃ e, x = .error (.err e) ∧ y = .error e) ∨
    ∃ a offset, start ≤ offset ∧ offset ≤ data.length ∧ x = .ok (a, offset) ∧
      y = .ok (a, cursorAt data offset)

theorem Agree.bind {α β : Type} {start : Nat} {x : Except Fault (α × Nat)}
    {y : Except Err (α × Cursor)} {f : α × Nat → Except Fault (β × Nat)}
    {g : α × Cursor → Except Err (β × Cursor)} (h : Agree data start x y)
    (hnext : ∀ a offset, start ≤ offset → offset ≤ data.length →
      Agree data offset (f (a, offset)) (g (a, cursorAt data offset))) :
    Agree data start (x >>= f) (y >>= g) := by
  rcases h with ⟨e, rfl, rfl⟩ | ⟨a, offset, hstart, hend, rfl, rfl⟩
  · exact .inl ⟨e, rfl, rfl⟩
  rcases hnext a offset hstart hend with ⟨e, hf, hg⟩ | ⟨b, offset', hle, hend', hf, hg⟩
  · exact .inl ⟨e, hf, hg⟩
  · exact .inr ⟨b, offset', hstart.trans hle, hend', hf, hg⟩

theorem agree_take {α : Type} (f : Bytes → α) (e : Err) (n : Nat) (h : offset ≤ data.length) :
    Agree data offset (if data.length < offset + n then .error (.err e) else do
        let bytes ← sliceOf data offset (offset + n)
        .ok (f bytes, offset + n))
      (if (cursorAt data offset).data.length < n then .error e else
        .ok (f ((cursorAt data offset).data.take n), (cursorAt data offset).skip n)) := by
  rw [length_cursorAt]
  by_cases hfits : data.length < offset + n
  · rw [if_pos hfits, if_pos (by omega)]
    exact .inl ⟨_, rfl, rfl⟩
  rw [if_neg hfits, if_neg (by omega), sliceOf_eq (by omega), cursorAt_skip]
  exact .inr ⟨_, offset + n, by omega, by omega, rfl, rfl⟩

theorem agree_fieldAt (what : String) (width : Nat) (h : offset ≤ data.length) :
    Agree data offset (fieldAt what width data offset)
      (readField what width (cursorAt data offset)) :=
  agree_take beNat _ width h

theorem agree_identifierAt (typeByte : UInt8) (h : offset ≤ data.length) :
    Agree data offset (identifierAt typeByte data offset)
      (readIdentifier typeByte (cursorAt data offset)) := by
  unfold identifierAt readIdentifier
  generalize (typeByte >>> 3) &&& 0x03 = width
  split
  · exact agree_fieldAt _ _ h
  · exact agree_fieldAt _ _ h
  · exact agree_fieldAt _ _ h
  · exact .inl ⟨_, rfl, by simp_all [cursorAt]⟩

theorem agree_lengthAt (typeByte : UInt8) (h : offset ≤ data.length) :
    Agree data offset (lengthAt typeByte data offset)
      (readLength typeByte (cursorAt data offset)) := by
  unfold lengthAt readLength
  generalize typeByte &&& 0x07 = width
  split
  · exact agree_fieldAt _ _ h
  · exact agree_fieldAt _ _ h
  · exact agree_fieldAt _ _ h
  · exact agree_fieldAt _ _ h
  · exact .inl ⟨_, rfl, rfl⟩
  · exact .inl ⟨_, rfl, by simp_all [cursorAt]⟩

theorem agree_recordAt (typeByte : UInt8) (h : offset ≤ data.length) :
    Agree data offset (recordAt typeByte data offset)
      (readRecord typeByte (cursorAt data offset)) := by
  unfold recordAt readRecord
  split
  · exact .inl ⟨_, rfl, rfl⟩
  refine (agree_identifierAt typeByte h).bind fun id offset1 _ h1 => ?_
  refine (agree_lengthAt typeByte h1).bind fun length offset2 _ h2 => ?_
  exact agree_take (fun value => (id, value)) _ length h2

theorem decodeTLVLoop_cursorAt {resolver : Option (Int → ResourceType)}
    (h : data[offset]? = some typeByte) : decodeTLVLoop resolver (cursorAt data offset) =
      (readRecord typeByte (cursorAt data (offset + 1))).bind fun (r, next) =>
        (decodeTLVLoop resolver next).map (⟨r.1, resolveType resolver r.1, r.2⟩ :: ·) := by
  obtain ⟨hlt, rfl⟩ := List.getElem?_eq_some_iff.mp h
  have hcursor : cursorAt data offset = ⟨offset, data[offset] :: data.drop (offset + 1)⟩ := by
    rw [cursorAt, ← List.drop_eq_getElem_cons hlt]
  rw [hcursor, decodeTLVLoop]
  split
  · rename_i hread
    rw [cursorAt, hread]
    rfl
  rename_i hread
  rw [cursorAt, hread]
  rfl

/-- **The loop with its offset reads inside the data**: it computes what the loop with a
cursor does, and its errors are the ones it returns. -/
theorem decodeAt_eq (resolver : Option (Int → ResourceType)) (data : Bytes) :
    ∀ (fuel offset : Nat), data.length ≤ offset + fuel → offset ≤ data.length →
      decodeAt resolver data fuel offset =
        (decodeTLVLoop resolver (cursorAt data offset)).mapError .err := by
  have hstop : ∀ offset, data.length ≤ offset →
      decodeTLVLoop resolver (cursorAt data offset) = .ok [] := by
    intro offset h
    rw [cursorAt, List.drop_eq_nil_of_le h, decodeTLVLoop_nil]
  intro fuel
  induction fuel with
  | zero =>
    intro offset hfuel _
    rw [hstop offset hfuel]
    rfl
  | succ fuel ih =>
    intro offset hfuel hle
    rw [decodeAt]
    by_cases hlt : offset < data.length
    · have hbyte : data[offset]? = some data[offset] := List.getElem?_eq_getElem hlt
      rw [if_pos hlt, if_neg (by omega), byteAt, hbyte, decodeTLVLoop_cursorAt hbyte]
      show (recordAt data[offset] data (offset + 1) >>= _) = _
      rcases agree_recordAt data[offset] (Nat.succ_le_of_lt hlt) with
        ⟨e, hx, hy⟩ | ⟨r, next, hstart, hend, hx, hy⟩
      · rw [hx, hy]
        rfl
      · rw [hx, hy]
        show (decodeAt resolver data fuel next >>= _) = _
        rw [ih next (by omega) hend]
        show _ = ((decodeTLVLoop resolver (cursorAt data next)).map _).mapError _
        cases decodeTLVLoop resolver (cursorAt data next) with
        | error e | ok results => rfl
    · rw [if_neg hlt, hstop offset (Nat.le_of_not_lt hlt)]
      rfl

/-! ### The documented format -/

/-- A record as the comment describes it: its reserved bit is zero. -/
def TlvRecord.Documented (r : TlvRecord) : Prop := r.reserved = false

/-- **`DecodeTLV` accepts the documented format**, as long as no record in the data has its
reserved bit set (`decodeTLV_reserved`): it succeeds exactly on the concatenations of
documented records and returns their identifiers and values in order.  Data of any kind is
only read inside its bounds. -/
theorem decodeTLV_documented (data : Bytes)
    (hclear : ∀ records : List TlvRecord, data = records.flatMap TlvRecord.bytes →
      ∀ r ∈ records, r.reserved = false) :
    (∀ resources, decodeTLV data = .ok resources ↔ ∃ records : List TlvRecord,
      (∀ r ∈ records, r.Documented) ∧ data = records.flatMap TlvRecord.bytes ∧
        resources = records.map TlvRecord.resource) ∧
    ((∃ resources, decodeTLV data = .ok resources) ↔ ∃ records : List TlvRecord,
      (∀ r ∈ records, r.Documented) ∧ data = records.flatMap TlvRecord.bytes) ∧
    decodeAt none data data.length 0 = (decodeTLV data).mapError .err := by
  have hiff : ∀ resources, decodeTLV data = .ok resources ↔ ∃ records : List TlvRecord,
      (∀ r ∈ records, r.Documented) ∧ data = records.flatMap TlvRecord.bytes ∧
        resources = records.map TlvRecord.resource := by
    intro resources
    rw [decodeTLV_eq_ok]
    constructor
    · rintro ⟨records, hdata, hres⟩
      exact ⟨records, hclear records hdata, hdata, hres⟩
    · rintro ⟨records, -, hdata, hres⟩
      exact ⟨records, hdata, hres⟩
  refine ⟨hiff, ?_, decodeAt_eq none data data.length 0 (by omega) (by omega)⟩
  constructor
  · rintro ⟨resources, h⟩
    obtain ⟨records, hdoc, hdata, -⟩ := (hiff resources).mp h
    exact ⟨records, hdoc, hdata⟩
  · rintro ⟨records, hdoc, hdata⟩
    exact ⟨_, (hiff _).mpr ⟨records, hdoc, hdata, rfl⟩⟩

/-- A 16-bit identifier with a 24-bit length, and an 8-bit one with an 8-bit length. -/
def twoRecords : List TlvRecord :=
  [⟨false, .id16, .len24, 300, [0x41, 0x42], by decide, by decide⟩,
    ⟨false, .id8, .len8, 5, [], by decide, by decide⟩]

theorem decodeTLV_documented_two :
    twoRecords.flatMap TlvRecord.bytes = [0xcb, 1, 44, 0, 0, 2, 0x41, 0x42, 0xc1, 5, 0] ∧
      decodeTLV [0xcb, 1, 44, 0, 0, 2, 0x41, 0x42, 0xc1, 5, 0] =
        .ok [⟨300, .resourceOpaque, [0x41, 0x42]⟩, ⟨5, .resourceOpaque, []⟩] := by
  have hclear : ∀ records : List TlvRecord,
      twoRecords.flatMap TlvRecord.bytes = records.flatMap TlvRecord.bytes →
        ∀ r ∈ records, r.reserved = false := by
    intro records h
    rw [← concat_injective h]
    decide
  refine ⟨by decide, ?_⟩
  exact ((decodeTLV_documented (twoRecords.flatMap TlvRecord.bytes) hclear).1 _).mpr
    ⟨twoRecords, by unfold TlvRecord.Documented; decide, rfl, rfl⟩

/-- A record with its reserved bit set is no documented one, and it is accepted. -/
theorem decodeTLV_reserved :
    decodeTLV [0xe1, 5, 1, 0x41] = .ok [⟨5, .resourceOpaque, [0x41]⟩] ∧
      ¬ ∃ records : List TlvRecord, (∀ r ∈ records, r.Documented) ∧
        [0xe1, 5, 1, 0x41] = records.flatMap TlvRecord.bytes := by
  have hbytes : [0xe1, 5, 1, 0x41] =
      [(⟨true, .id8, .len8, 5, [0x41], by decide, by decide⟩)].flatMap
        TlvRecord.bytes := by decide
  refine ⟨decodeTLV_eq_ok.mpr ⟨_, hbytes, rfl⟩, ?_⟩
  rintro ⟨records, hdoc, hrecords⟩
  rw [← concat_injective (hbytes.symm.trans hrecords)] at hdoc
  exact absurd (hdoc _ List.mem_cons_self) (by unfold TlvRecord.Documented; decide)

end SharkSocket.Lwm2m
