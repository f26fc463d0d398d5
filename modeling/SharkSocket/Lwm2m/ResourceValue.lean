import SharkSocket.Lib.TwosComplement
import SharkSocket.Lwm2m.Tlv

/-!
# Values of decoded resources

`ResourceValue` of `lwm2m/codec_tlv.go` turns the bytes of a resource into a Go value of
the type that the object model gives it.

An integer of eight bytes or more is a conversion of its first eight.  A shorter one is
shifted into a word byte by byte, and a mask of ones is put above it if its first byte has
the sign bit.  `resourceValue_integer` says that both are the signed big-endian number, so
that it does not matter how many bytes of the sign stand in front.
-/

namespace SharkSocket.Lwm2m

open Lib

/-- What `ResourceValue` returns, by its type in Go. -/
inductive ResourceData
  | string (s : Bytes)
  | int64 (v : Int64)
  /-- The number with these bits. -/
  | float64 (bits : UInt64)
  /-- A `float64` that was converted from the `float32` with these bits. -/
  | float32 (bits : UInt32)
  | bool (b : Bool)
  | time (unix : Int64)
  | zeroTime
  | bytes (value : Bytes)
  deriving DecidableEq, Repr

/-- `binary.BigEndian.Uint64`, of the first eight bytes. -/
def bigEndianUint64 (b : Bytes) : UInt64 := UInt64.ofNat (beNat (b.take 8))

def bigEndianUint32 (b : Bytes) : UInt32 := UInt32.ofNat (beNat (b.take 4))

def integerValue (value : Bytes) : Int64 :=
  if value.length ≥ 8 then (bigEndianUint64 value).toInt64
  else if 0 < value.length ∧ value.length < 8 ∧ value.headD 0 &&& 0x80 ≠ 0 then
    beInt64 value ||| shl (-1) (8 * value.length)
  else beInt64 value

def floatValue (value : Bytes) : ResourceData :=
  if value.length ≥ 8 then .float64 (bigEndianUint64 value)
  else if value.length = 4 then .float32 (bigEndianUint32 value)
  else .float64 0

def TlvResource.resourceValue (r : TlvResource) : ResourceData :=
  match r.type with
  | .resourceString => .string r.value
  | .resourceInteger => .int64 (integerValue r.value)
  | .resourceFloat => floatValue r.value
  | .resourceBoolean => .bool (decide (0 < r.value.length ∧ r.value.headD 0 ≠ 0))
  | .resourceTime =>
    if r.value.length ≥ 4 then .time (bigEndianUint32 r.value).toUInt64.toInt64 else .zeroTime
  | _ => .bytes r.value

theorem toInt_integerValue {value : Bytes} (hne : value ≠ []) (hle : value.length ≤ 8) :
    (integerValue value).toInt = signedBE value := by
  have hpos : 0 < value.length := List.length_pos_iff.mpr hne
  unfold integerValue
  by_cases hlong : value.length ≥ 8
  · have hlen : value.length = 8 := Nat.le_antisymm hle hlong
    rw [bigEndianUint64, List.take_of_length_le hle, signedBE, hlen]
    rfl
  have hword := congrArg BitVec.toInt (toBitVec_signed hne)
  rw [BitVec.toInt_signExtend_of_le (by omega)] at hword
  simp only [if_neg hlong, hpos, Nat.lt_of_not_le hlong, true_and]
  exact hword

/-- **An Integer resource of one to eight bytes is the signed big-endian number** that its
bytes denote, and bytes of the sign in front, up to eight in all, do not change it. -/
theorem resourceValue_integer (r : TlvResource) (htype : r.type = .resourceInteger)
    (hpos : 1 ≤ r.value.length) (hle : r.value.length ≤ 8) :
    ∃ v : Int64, r.resourceValue = .int64 v ∧ v.toInt = signedBE r.value ∧
      ∀ n, n + r.value.length ≤ 8 →
        { r with value := List.replicate n (signByte r.value) ++ r.value }.resourceValue =
          .int64 v := by
  have hne : r.value ≠ [] := List.length_pos_iff.mp hpos
  have hvalue : ∀ value, { r with value := value }.resourceValue = .int64 (integerValue value) := by
    intro value
    rw [TlvResource.resourceValue, htype]
  refine ⟨integerValue r.value, hvalue r.value, toInt_integerValue hne hle, ?_⟩
  intro n hn
  rw [hvalue, ResourceData.int64.injEq, ← Int64.toInt_inj, toInt_integerValue hne hle,
    toInt_integerValue (by simp [hne]) (by simpa using hn), signedBE_replicate hne]

/-- The number -129 in two bytes and in five. -/
theorem resourceValue_integer_two :
    (⟨5700, .resourceInteger, [0xff, 0x7f]⟩ : TlvResource).resourceValue = .int64 (-129) ∧
      (⟨5700, .resourceInteger, [0xff, 0xff, 0xff, 0xff, 0x7f]⟩ : TlvResource).resourceValue =
        .int64 (-129) := by
  obtain ⟨v, hv, hint, hsign⟩ :=
    resourceValue_integer ⟨5700, .resourceInteger, [0xff, 0x7f]⟩ rfl (by decide) (by decide)
  have hnumber : v = -129 := Int64.toInt_inj.mp (hint.trans (by decide))
  subst hnumber
  exact ⟨hv, hsign 3 (by decide)⟩

end SharkSocket.Lwm2m
