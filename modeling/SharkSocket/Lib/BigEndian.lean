import Mathlib.Data.List.Induction
import Mathlib.Data.Nat.Bitwise

/-!
# Numbers as big-endian bytes

`beNat` is the number a list of bytes stands for, most significant byte first.
A shift and an `or` with a value below the shift add, so the loop that folds
bytes into a machine word computes it as long as the word is wide enough.
-/

namespace SharkSocket.Lib

def beNat (l : List UInt8) : Nat := l.foldl (fun n b => n * 256 + b.toNat) 0

@[simp] theorem beNat_nil : beNat [] = 0 := rfl

theorem beNat_concat (l : List UInt8) (b : UInt8) : beNat (l ++ [b]) = beNat l * 256 + b.toNat := by
  simp [beNat, List.foldl_append]

theorem beNat_zero_cons (l : List UInt8) : beNat (0 :: l) = beNat l := rfl

theorem beNat_lt (l : List UInt8) : beNat l < 256 ^ l.length := by
  induction l using List.reverseRecOn with
  | nil => decide
  | append_singleton l b ih =>
    have hb : b.toNat < 256 := b.toNat_lt
    rw [beNat_concat, List.length_append, List.length_singleton]
    omega

theorem beNat_cons (b : UInt8) (l : List UInt8) :
    beNat (b :: l) = b.toNat * 256 ^ l.length + beNat l := by
  induction l using List.reverseRecOn with
  | nil => simp [beNat]
  | append_singleton l c ih =>
    rw [← List.cons_append, beNat_concat, beNat_concat, ih, List.length_append,
      List.length_singleton, pow_succ, Nat.add_mul, Nat.mul_assoc, Nat.add_assoc]

/-- **Among lists of one length the order of the numbers is that of the bytes**, the
lexicographic one. -/
theorem lt_iff_beNat_lt {l m : List UInt8} (h : l.length = m.length) :
    l < m ↔ beNat l < beNat m := by
  induction l generalizing m with
  | nil =>
    obtain rfl : m = [] := List.length_eq_zero_iff.mp h.symm
    simp
  | cons a l ih =>
    cases m with
    | nil => cases h
    | cons b m =>
      have hlen : l.length = m.length := Nat.succ.inj h
      have hl := beNat_lt l
      have hm := beNat_lt m
      rw [List.cons_lt_cons_iff, ih hlen, beNat_cons, beNat_cons, ← UInt8.toNat_inj]
      rw [hlen] at hl ⊢
      constructor
      · rintro (hab | ⟨hab, hlt⟩)
        · have hle : (a.toNat + 1) * 256 ^ m.length ≤ b.toNat * 256 ^ m.length :=
            Nat.mul_le_mul_right _ hab
          rw [Nat.succ_mul] at hle
          omega
        · rw [hab]
          omega
      · intro hlt
        rcases lt_trichotomy a.toNat b.toNat with hab | hab | hab
        · exact .inl hab
        · rw [hab] at hlt
          exact .inr ⟨hab, by omega⟩
        have hle : (b.toNat + 1) * 256 ^ m.length ≤ a.toNat * 256 ^ m.length :=
          Nat.mul_le_mul_right _ hab
        rw [Nat.succ_mul] at hle
        omega

/-- The `w` low bytes of a number, as `PutUint16`, `PutUint32` and `PutUint64` of
`binary.BigEndian` write them. -/
def putBE : Nat → Nat → List UInt8
  | 0, _ => []
  | w + 1, n => putBE w (n / 256) ++ [UInt8.ofNat n]

@[simp] theorem length_putBE (w n : Nat) : (putBE w n).length = w := by
  induction w generalizing n with
  | zero => rfl
  | succ w ih => simp [putBE, ih]

theorem beNat_putBE (w n : Nat) : beNat (putBE w n) = n % 256 ^ w := by
  induction w generalizing n with
  | zero => simp [putBE, Nat.mod_one]
  | succ w ih =>
    have hb : (UInt8.ofNat n).toNat = n % 256 := UInt8.toNat_ofNat'
    rw [putBE, beNat_concat, ih, pow_succ, Nat.mul_comm (256 ^ w) 256, Nat.mod_mul]
    omega

theorem beNat_putBE_of_lt {w n : Nat} (h : n < 256 ^ w) : beNat (putBE w n) = n := by
  rw [beNat_putBE, Nat.mod_eq_of_lt h]

theorem toNat_shiftLeft_or {x y s : UInt32} {k : Nat} (hs : s.toNat = k)
    (hx : x.toNat * 2 ^ k < 2 ^ 32) (hk : k < 32) (hy : y.toNat < 2 ^ k) :
    (x <<< s ||| y).toNat = x.toNat * 2 ^ k + y.toNat := by
  rw [UInt32.toNat_or, UInt32.toNat_shiftLeft, hs, Nat.mod_eq_of_lt hk, Nat.shiftLeft_eq,
    Nat.mod_eq_of_lt hx, ← Nat.shiftLeft_eq, ← Nat.shiftLeft_add_eq_or_of_lt hy]

/-- The loop `v = v<<8 | uint32(b)`. -/
def beUInt32 (l : List UInt8) : UInt32 :=
  l.foldl (fun v b => (v <<< 8) ||| b.toUInt32) 0

theorem toNat_beUInt32 {l : List UInt8} (h : l.length ≤ 4) : (beUInt32 l).toNat = beNat l := by
  induction l using List.reverseRecOn with
  | nil => rfl
  | append_singleton l b ih =>
    rw [List.length_append, List.length_singleton] at h
    have hlt : beNat l < 256 ^ 3 :=
      (beNat_lt l).trans_le (Nat.pow_le_pow_right (by decide) (by omega))
    have hl := ih (by omega)
    have hb : b.toUInt32.toNat < 2 ^ 8 := by simpa using b.toNat_lt
    have hstep : beUInt32 (l ++ [b]) = (beUInt32 l <<< 8) ||| b.toUInt32 := by
      simp [beUInt32, List.foldl_append]
    rw [hstep, toNat_shiftLeft_or (k := 8) rfl (by omega) (by decide) hb, hl, beNat_concat]
    simp

/-- `binary.BigEndian.PutUint32`. -/
def putUInt32 (v : UInt32) : List UInt8 :=
  [(v >>> 24).toUInt8, (v >>> 16).toUInt8, (v >>> 8).toUInt8, v.toUInt8]

/-- A byte of a word, counted in bits from the low end. -/
theorem toNat_byteAt (v : UInt32) {k : Nat} {n : UInt32} (hn : n.toNat = k) (hk : k < 32) :
    ((v >>> n).toUInt8).toNat = v.toNat / 2 ^ k % 256 := by
  rw [UInt32.toNat_toUInt8, UInt32.toNat_shiftRight, hn, Nat.mod_eq_of_lt hk,
    Nat.shiftRight_eq_div_pow]

/-- The low three bytes of a word. -/
theorem beNat_low (v : UInt32) :
    beNat [(v >>> 16).toUInt8, (v >>> 8).toUInt8, v.toUInt8] = v.toNat % 2 ^ 24 := by
  have h16 := toNat_byteAt v (k := 16) (n := 16) rfl (by decide)
  have h8 := toNat_byteAt v (k := 8) (n := 8) rfl (by decide)
  have h0 : (v.toUInt8).toNat = v.toNat % 256 := UInt32.toNat_toUInt8 v
  simp only [beNat, List.foldl_cons, List.foldl_nil, h16, h8, h0]
  omega

theorem beNat_putUInt32 (v : UInt32) : beNat (putUInt32 v) = v.toNat := by
  have hlt : v.toNat < 2 ^ 32 := v.toNat_lt
  rw [putUInt32, beNat_cons, beNat_low, toNat_byteAt v (k := 24) rfl (by decide)]
  simp only [List.length_cons, List.length_nil]
  omega

/-- A word is read back as it was written. -/
theorem beUInt32_putUInt32 (v : UInt32) : beUInt32 (putUInt32 v) = v := by
  apply UInt32.toNat_inj.mp
  rw [toNat_beUInt32 (by simp [putUInt32]), beNat_putUInt32]

/-- Bytes of one length are determined by their number. -/
theorem beNat_inj {l m : List UInt8} (hlen : l.length = m.length) (h : beNat l = beNat m) :
    l = m := by
  induction l using List.reverseRecOn generalizing m with
  | nil =>
    obtain rfl : m = [] := List.length_eq_zero_iff.mp hlen.symm
    rfl
  | append_singleton l b ih =>
    rcases List.eq_nil_or_concat m with rfl | ⟨m, c, rfl⟩
    · simp at hlen
    have hb : b.toNat < 256 := b.toNat_lt
    have hc : c.toNat < 256 := c.toNat_lt
    rw [List.concat_eq_append] at hlen h ⊢
    rw [beNat_concat, beNat_concat] at h
    have hlow : b = c := UInt8.toNat_inj.mp (by omega)
    rw [ih (by simpa using hlen) (by omega), hlow]

/-- The bytes of a word that was read are those it was read from. -/
theorem putUInt32_beUInt32 {l : List UInt8} (h : l.length = 4) : putUInt32 (beUInt32 l) = l := by
  apply beNat_inj
  · rw [h]
    rfl
  · rw [beNat_putUInt32, toNat_beUInt32 (by omega)]

end SharkSocket.Lib
