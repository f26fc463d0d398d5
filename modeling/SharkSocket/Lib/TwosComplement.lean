import Mathlib.Tactic.Ring
import SharkSocket.Lib.BigEndian

/-!
# Signed big-endian numbers

`signedBE` is the number that bytes stand for in two's complement.  Its sign is in the
first byte (`msb_beNat`), and another byte of the sign in front does not change it
(`signedBE_replicate`).

A 64-bit word into which the bytes are shifted one by one holds the unsigned number
(`toBitVec_beInt64`).  With ones above the bytes if the sign is set, it is the signed one
(`toBitVec_signed`).
-/

namespace SharkSocket.Lib

def signedBE (l : List UInt8) : Int := (BitVec.ofNat (8 * l.length) (beNat l)).toInt

/-- The byte that continues the sign of a number to the left. -/
def signByte (l : List UInt8) : UInt8 := if l.headD 0 &&& 0x80 ≠ 0 then 0xff else 0

theorem pow_eight_mul (n : Nat) : 2 ^ (8 * n) = 256 ^ n := Nat.pow_mul 2 8 n

theorem toNat_ofNat_beNat (l : List UInt8) :
    (BitVec.ofNat (8 * l.length) (beNat l)).toNat = beNat l := by
  rw [BitVec.toNat_ofNat, pow_eight_mul, Nat.mod_eq_of_lt (beNat_lt l)]

theorem and_signBit (b : UInt8) : b &&& 0x80 ≠ 0 ↔ 128 ≤ b.toNat := by
  have hall : ∀ n < 256, UInt8.ofNat n &&& 0x80 ≠ 0 ↔ 128 ≤ (UInt8.ofNat n).toNat := by
    decide +kernel
  have hb := hall b.toNat b.toNat_lt
  rwa [UInt8.ofNat_toNat] at hb

/-- The sign of a number is the top bit of its first byte. -/
theorem msb_beNat (b : UInt8) (l : List UInt8) :
    (BitVec.ofNat (8 * (b :: l).length) (beNat (b :: l))).msb = decide (b &&& 0x80 ≠ 0) := by
  have hl := beNat_lt l
  have hhalf : 2 ^ (8 * (b :: l).length - 1) = 128 * 256 ^ l.length := by
    have hwidth : 8 * (b :: l).length - 1 = 7 + 8 * l.length := by
      rw [List.length_cons]
      omega
    rw [hwidth, Nat.pow_add, pow_eight_mul]
  rw [BitVec.msb_eq_decide, toNat_ofNat_beNat, hhalf, beNat_cons]
  simp only [and_signBit]
  congr 1
  rw [eq_iff_iff]
  constructor
  · intro h
    by_contra hb
    have hle : (b.toNat + 1) * 256 ^ l.length ≤ 128 * 256 ^ l.length :=
      Nat.mul_le_mul_right _ (by omega)
    rw [Nat.succ_mul] at hle
    omega
  · intro hb
    exact (Nat.mul_le_mul_right _ hb).trans (Nat.le_add_right _ _)

theorem signedBE_cons (b : UInt8) (l : List UInt8) : signedBE (b :: l) =
      beNat (b :: l) - if b &&& 0x80 ≠ 0 then (256 ^ (l.length + 1) : Nat) else 0 := by
  rw [signedBE, BitVec.toInt_eq_msb_cond, msb_beNat, toNat_ofNat_beNat, pow_eight_mul]
  by_cases hb : b &&& 0x80 ≠ 0 <;> simp [hb]

theorem signedBE_signByte {l : List UInt8} (h : l ≠ []) :
    signedBE (signByte l :: l) = signedBE l := by
  cases l with
  | nil => exact absurd rfl h
  | cons b l =>
    rw [signedBE_cons, signedBE_cons, beNat_cons]
    by_cases hb : b &&& 0x80 ≠ 0
    · have hbyte : signByte (b :: l) = 0xff := if_pos hb
      rw [hbyte, if_pos (by decide), if_pos hb, List.length_cons]
      push_cast
      ring
    have hbyte : signByte (b :: l) = 0 := if_neg hb
    rw [hbyte, if_neg hb]
    simp

/-- **Bytes of the sign in front do not change the number.** -/
theorem signedBE_replicate {l : List UInt8} (h : l ≠ []) (n : Nat) :
    signedBE (List.replicate n (signByte l) ++ l) = signedBE l := by
  induction n with
  | zero => rfl
  | succ n ih =>
    have hsign : signByte (List.replicate n (signByte l) ++ l) = signByte l := by
      cases n with
      | zero => rfl
      | succ n =>
        show (if signByte l &&& 0x80 ≠ 0 then 0xff else 0) = signByte l
        unfold signByte
        split <;> decide
    have hstep := signedBE_signByte (l := List.replicate n (signByte l) ++ l) (by simp [h])
    rw [hsign, ih] at hstep
    exact hstep

/-! ### Words -/

/-- The operator `v << n` of Go: a count of 64 or more leaves nothing. -/
def shl (v : Int64) (n : Nat) : Int64 := Int64.ofBitVec (v.toBitVec <<< n)

/-- The loop `v = (v << 8) | int64(b)`. -/
def beInt64 (l : List UInt8) : Int64 :=
  l.foldl (fun v b => shl v 8 ||| b.toUInt64.toInt64) 0

theorem toBitVec_beInt64 (l : List UInt8) : (beInt64 l).toBitVec = BitVec.ofNat 64 (beNat l) := by
  induction l using List.reverseRecOn with
  | nil => rfl
  | append_singleton l b ih =>
    have hb : b.toNat < 2 ^ 8 := b.toNat_lt
    have hstep : beInt64 (l ++ [b]) = shl (beInt64 l) 8 ||| b.toUInt64.toInt64 := by
      simp [beInt64, List.foldl_append]
    apply BitVec.eq_of_toNat_eq
    rw [hstep, beNat_concat, shl, Int64.toBitVec_or, Int64.toBitVec_ofBitVec, ih, BitVec.toNat_or,
      BitVec.toNat_shiftLeft, BitVec.toNat_ofNat, BitVec.toNat_ofNat, UInt64.toBitVec_toInt64,
      UInt8.toBitVec_toUInt64, BitVec.toNat_setWidth, UInt8.toNat_toBitVec, Nat.shiftLeft_eq]
    -- the number is a multiple of 256 in the word, so the bits of the byte are added
    have hhigh : beNat l % 2 ^ 64 * 2 ^ 8 % 2 ^ 64 = (beNat l % 2 ^ 56) <<< 8 := by omega
    have hbyte : b.toNat % 2 ^ 64 = b.toNat := Nat.mod_eq_of_lt (by omega)
    rw [hhigh, hbyte, ← Nat.shiftLeft_add_eq_or_of_lt hb]
    omega

/-- A negative number is continued by ones. -/
theorem signExtend_ofNat {w n : Nat} (h : n < 2 ^ w) : (BitVec.ofNat w n).signExtend 64 =
      if (BitVec.ofNat w n).msb then BitVec.ofNat 64 n ||| BitVec.allOnes 64 <<< w
      else BitVec.ofNat 64 n := by
  have hhigh : ∀ i, w ≤ i → n.testBit i = false := fun i hi =>
    Nat.testBit_lt_two_pow (h.trans_le (Nat.pow_le_pow_right (by decide) hi))
  apply BitVec.eq_of_getLsbD_eq
  intro i hi
  rw [BitVec.getLsbD_signExtend, BitVec.getLsbD_ofNat]
  cases (BitVec.ofNat w n).msb with
  | true =>
    rw [if_pos rfl, BitVec.getLsbD_or, BitVec.getLsbD_ofNat, BitVec.getLsbD_shiftLeft,
      BitVec.getLsbD_allOnes]
    by_cases hlow : i < w
    · simp [hi, hlow]
    · simp [hi, hlow, Nat.sub_lt_of_lt hi]
  | false =>
    rw [if_neg Bool.false_ne_true, BitVec.getLsbD_ofNat]
    by_cases hlow : i < w
    · simp [hi, hlow]
    · simp [hi, hlow, hhigh i (Nat.le_of_not_lt hlow)]

/-- **The word of the bytes is their signed number**, with ones above them if they are
negative. -/
theorem toBitVec_signed {l : List UInt8} (hne : l ≠ []) :
    (if l.headD 0 &&& 0x80 ≠ 0 then beInt64 l ||| shl (-1) (8 * l.length)
      else beInt64 l).toBitVec = (BitVec.ofNat (8 * l.length) (beNat l)).signExtend 64 := by
  have hones : (-1 : Int64).toBitVec = BitVec.allOnes 64 := by decide
  have hlt : beNat l < 2 ^ (8 * l.length) := by
    rw [pow_eight_mul]
    exact beNat_lt l
  cases l with
  | nil => exact absurd rfl hne
  | cons b l =>
    rw [signExtend_ofNat hlt, msb_beNat, List.headD_cons]
    by_cases hsign : b &&& 0x80 ≠ 0
    · rw [if_pos hsign, if_pos (by simp [hsign]), Int64.toBitVec_or, toBitVec_beInt64, shl,
        Int64.toBitVec_ofBitVec, hones]
    · rw [if_neg hsign, if_neg (by simp [hsign]), toBitVec_beInt64]

end SharkSocket.Lib
