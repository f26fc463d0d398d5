import SharkSocket.Lib.BigEndian
import SharkSocket.Lib.IpText

/-!
# Networks

`IPNet.contains` is Go's `IPNet.Contains`: it compares the masked bytes of the network and
of the address.  A `Cidr` is a network as numbers, an address and how many of its leading
bits count, and an address lies in it when these bits are the same.

* `beNat_mask`: masking clears the bits below the network;
* `contains_parseCIDR`: a parsed network contains the addresses of the `Cidr` it was read as,
  where a network inside `::ffff:0:0/96` is one of IPv4 addresses.
-/

namespace SharkSocket.Lib

/-- `networkNumberAndMask`; `none` is a pair of nil slices. -/
def networkNumberAndMask (n : IPNet) : Option (List UInt8 × List UInt8) :=
  match to4 n.ip with
  | some ip =>
    if n.mask.length = 4 then some (ip, n.mask)
    else if n.mask.length = 16 then some (ip, n.mask.drop 12)
    else none
  | none =>
    if n.ip.length ≠ 16 then none else if n.mask.length = 16 then some (n.ip, n.mask) else none

/-- `IPNet.Contains`.  Nil slices have the length zero, which no address has. -/
def IPNet.contains (n : IPNet) (ip : List UInt8) : Bool :=
  match networkNumberAndMask n with
  | none => false
  | some (nn, m) =>
    let ip := reduceIP ip
    if ip.length ≠ nn.length then false
    else List.zipWith (· &&& ·) nn m == List.zipWith (· &&& ·) ip m

/-! ### Masks -/

theorem cidrMask_succ (ones size : Nat) : cidrMask ones (size + 1) =
      UInt8.ofNat (256 - 2 ^ (8 - min 8 ones)) :: cidrMask (ones - 8) size := by
  unfold cidrMask
  rw [List.range_succ_eq_map, List.map_cons, List.map_map]
  refine congrArg₂ List.cons rfl (List.map_congr_left fun i _ => ?_)
  dsimp only [Function.comp_apply]
  rw [show ones - 8 * (i + 1) = ones - 8 - 8 * i by omega]

@[simp] theorem length_cidrMask (ones size : Nat) : (cidrMask ones size).length = size := by
  simp [cidrMask]

/-- A mask byte clears the low bits. -/
theorem toNat_and_mask (b : UInt8) {k : Nat} (hk : k ≤ 8) :
    (b &&& UInt8.ofNat (256 - 2 ^ k)).toNat = b.toNat / 2 ^ k * 2 ^ k := by
  have hall : ∀ (n : Fin 256) (k : Fin 9),
      (UInt8.ofNat n.val &&& UInt8.ofNat (256 - 2 ^ k.val)).toNat =
        n.val / 2 ^ k.val * 2 ^ k.val := by
    decide +kernel
  have hb := hall ⟨b.toNat, b.toNat_lt⟩ ⟨k, by omega⟩
  rwa [UInt8.ofNat_toNat] at hb

/-- The leading bits of an address. -/
abbrev masked (addr : List UInt8) (ones size : Nat) : List UInt8 :=
  List.zipWith (· &&& ·) addr (cidrMask ones size)

/-- **Masking clears the bits below the network.** -/
theorem beNat_mask : ∀ (l : List UInt8) (ones : Nat), ones ≤ 8 * l.length →
    beNat (masked l ones l.length) =
      beNat l / 2 ^ (8 * l.length - ones) * 2 ^ (8 * l.length - ones) := by
  unfold masked
  intro l
  induction l with
  | nil => intro ones h; simp
  | cons b l ih =>
    intro ones h
    have hl := beNat_lt l
    have h256 : 256 ^ l.length = 2 ^ (8 * l.length) := by rw [Nat.pow_mul]
    rw [List.length_cons] at h
    rw [List.length_cons, cidrMask_succ, List.zipWith_cons_cons, beNat_cons, beNat_cons,
      List.length_zipWith, length_cidrMask, Nat.min_self, h256]
    rw [h256] at hl
    by_cases h8 : ones ≤ 8
    · -- the network ends inside this byte
      have hzero : ones - 8 = 0 := by omega
      have hrest := ih (ones - 8) (by omega)
      rw [hzero, Nat.sub_zero, Nat.div_eq_of_lt hl] at hrest
      rw [hzero, hrest, Nat.min_eq_right h8, toNat_and_mask b (by omega)]
      have hpow : 2 ^ (8 * (l.length + 1) - ones) = 2 ^ (8 * l.length) * 2 ^ (8 - ones) := by
        rw [← Nat.pow_add]
        congr 1
        omega
      rw [hpow, ← Nat.div_div_eq_div_mul, Nat.mul_comm b.toNat, Nat.mul_add_div (by positivity),
        Nat.div_eq_of_lt hl, Nat.add_zero]
      ring
    · -- the byte belongs to the network
      have hrest := ih (ones - 8) (by omega)
      have hexp : 8 * (l.length + 1) - ones = 8 * l.length - (ones - 8) := by omega
      have hsplit : 2 ^ (8 * l.length) =
          2 ^ (ones - 8) * 2 ^ (8 * l.length - (ones - 8)) := by
        rw [← Nat.pow_add]
        congr 1
        omega
      rw [hrest, Nat.min_eq_left (by omega), toNat_and_mask b (by omega), hexp,
        Nat.pow_zero, Nat.div_one, Nat.mul_one]
      generalize 8 * l.length - (ones - 8) = k at *
      have hdiv : (b.toNat * 2 ^ (ones - 8) * 2 ^ k + beNat l) / 2 ^ k =
          b.toNat * 2 ^ (ones - 8) + beNat l / 2 ^ k := by
        rw [Nat.mul_comm _ (2 ^ k), Nat.mul_add_div (by positivity)]
      rw [hsplit, ← Nat.mul_assoc, hdiv, Nat.add_mul]

variable {ones : Nat} {addr : List UInt8}

/-- Masked bytes are the same exactly if the leading bits are. -/
theorem mask_eq_mask_iff {l m : List UInt8} (hlen : l.length = m.length) (h : ones ≤ 8 * l.length) :
    masked l ones l.length = masked m ones l.length ↔
      beNat l / 2 ^ (8 * l.length - ones) = beNat m / 2 ^ (8 * l.length - ones) := by
  have hl := beNat_mask l ones h
  have hm := beNat_mask m ones (by omega)
  rw [← hlen] at hm
  constructor
  · intro heq
    rw [heq, hm] at hl
    exact (Nat.eq_of_mul_eq_mul_right (by positivity) hl).symm
  · intro heq
    apply beNat_inj
    · rw [List.length_zipWith, List.length_zipWith, hlen]
    · rw [hl, hm, heq]

theorem mask_mask (l m : List UInt8) :
    List.zipWith (· &&& ·) (List.zipWith (· &&& ·) l m) m = List.zipWith (· &&& ·) l m := by
  induction l generalizing m with
  | nil => rfl
  | cons b l ih =>
    cases m with
    | nil => rfl
    | cons c m =>
      rw [List.zipWith_cons_cons, List.zipWith_cons_cons, ih, UInt8.and_assoc, UInt8.and_self]

/-! ### Networks as numbers -/

/-- An address of four or sixteen bytes, and the number of its leading bits that count. -/
structure Cidr where
  addr : List UInt8
  ones : Nat
  deriving DecidableEq, Repr

/-- The addresses of the same family with the same leading bits. -/
def Cidr.Contains (c : Cidr) (ip : List UInt8) : Prop :=
  ip.length = c.addr.length ∧
    beNat ip / 2 ^ (8 * c.addr.length - c.ones) = beNat c.addr / 2 ^ (8 * c.addr.length - c.ones)

instance (c : Cidr) (ip : List UInt8) : Decidable (c.Contains ip) :=
  inferInstanceAs (Decidable (_ ∧ _))

/-- The text of a network: an address and a number of bits, where a network inside
`::ffff:0:0/96` is one of IPv4 addresses. -/
def readCidr (s : List UInt8) : Option Cidr :=
  match s.idxOf? 0x2f with
  | none => none
  | some i =>
    let addr := s.take i
    match parseIP addr, decimalValue (s.drop (i + 1)) with
    | some ip, some ones =>
      if addr.find? (fun c => c = 0x2e ∨ c = 0x3a ∨ c = 0x25) = some 0x2e then
        if 32 < ones then none else some ⟨ip.drop 12, ones⟩
      else if 128 < ones then none
      else if ip.take 12 = v4InV6Prefix ∧ 96 ≤ ones then some ⟨ip.drop 12, ones - 96⟩
      else some ⟨ip, ones⟩
    | _, _ => none

/-- The bytes of a network are masked already. -/
theorem contains_masked {n : IPNet} {size : Nat} (ip : List UInt8) (hlen : addr.length = size)
    (h : ones ≤ 8 * size) (hn : networkNumberAndMask n =
      some (masked addr ones size, cidrMask ones size)) :
    n.contains ip = true ↔ Cidr.Contains ⟨addr, ones⟩ (reduceIP ip) := by
  subst hlen
  unfold IPNet.contains Cidr.Contains
  rw [hn]
  dsimp only
  rw [List.length_zipWith, length_cidrMask, Nat.min_self, mask_mask]
  split
  · rename_i hlen
    simp [hlen]
  rename_i hlen
  rw [not_not] at hlen
  rw [beq_iff_eq, mask_eq_mask_iff hlen.symm h, eq_comm]
  simp [hlen]

theorem cidrMask_append (ones a b : Nat) :
    cidrMask ones (a + b) = cidrMask ones a ++ cidrMask (ones - 8 * a) b := by
  induction a generalizing ones with
  | zero =>
    rw [Nat.zero_add]
    rfl
  | succ a ih =>
    rw [Nat.add_right_comm, cidrMask_succ, cidrMask_succ, ih, List.cons_append, Nat.sub_sub,
      Nat.mul_succ, Nat.add_comm 8]

/-- A masked address is a mapped IPv4 address exactly if the mask leaves its first twelve
bytes. -/
theorem take_masked_eq_iff {ip : List UInt8} (hlen : ip.length = 16) (ones : Nat) :
    (masked ip ones 16).take 12 = v4InV6Prefix ↔
      ip.take 12 = v4InV6Prefix ∧ 96 ≤ ones := by
  have htwelve : (ip.take 12).length = 12 := List.length_take_of_le (by omega)
  have htake : (masked ip ones 16).take 12 =
      masked (ip.take 12) ones 12 := by
    rw [List.take_zipWith, cidrMask_append ones 12 4, List.take_left' (length_cidrMask _ _)]
  rw [htake]
  by_cases h96 : 96 ≤ ones
  · have hfull : cidrMask ones 12 = cidrMask 96 12 := by
      refine List.map_congr_left fun i hi => ?_
      rw [List.mem_range] at hi
      have hset : min 8 (ones - 8 * i) = min 8 (96 - 8 * i) := by omega
      rw [hset]
    have hnum := beNat_mask (ip.take 12) 96 (by omega)
    rw [htwelve, Nat.pow_zero, Nat.div_one, Nat.mul_one] at hnum
    have hsame : masked (ip.take 12) ones 12 = ip.take 12 := by
      rw [masked, hfull]
      exact beNat_inj (by rw [List.length_zipWith, length_cidrMask, htwelve, Nat.min_self]) hnum
    rw [hsame]
    simp [h96]
  · -- the last bit of the twelve bytes is cleared
    have hnum := beNat_mask (ip.take 12) ones (by omega)
    rw [htwelve, show 8 * 12 - ones = 95 - ones + 1 by omega, Nat.pow_succ, ← Nat.mul_assoc] at hnum
    constructor
    · intro heq
      rw [heq, show beNat v4InV6Prefix = 65535 from by decide] at hnum
      omega
    · rintro ⟨-, hle⟩
      exact absurd hle h96

/-- A network of four bytes. -/
theorem contains_four {ip : List UInt8} (hlen : addr.length = 4) (hones : ones ≤ 32) :
    IPNet.contains ⟨masked addr ones 4, cidrMask ones 4⟩ ip = true ↔
      Cidr.Contains ⟨addr, ones⟩ (reduceIP ip) := by
  have hmasked : (masked addr ones 4).length = 4 := by simp [hlen]
  have hnumber : networkNumberAndMask ⟨masked addr ones 4, cidrMask ones 4⟩ =
      some (masked addr ones 4, cidrMask ones 4) := by
    rw [networkNumberAndMask, to4, if_pos hmasked]
    dsimp only
    rw [if_pos (length_cidrMask ones 4)]
  exact contains_masked ip hlen hones hnumber

/-- A network of sixteen bytes, which may be one of mapped IPv4 addresses. -/
theorem contains_sixteen (ip : List UInt8) (hlen : addr.length = 16) (hones : ones ≤ 128) :
    IPNet.contains ⟨masked addr ones 16, cidrMask ones 16⟩ ip = true ↔
      Cidr.Contains (if addr.take 12 = v4InV6Prefix ∧ 96 ≤ ones then ⟨addr.drop 12, ones - 96⟩
        else ⟨addr, ones⟩) (reduceIP ip) := by
  have hmasked : (masked addr ones 16).length = 16 := by simp [hlen]
  have hmask : (cidrMask ones 16).length = 16 := length_cidrMask ones 16
  have hmap := take_masked_eq_iff hlen ones
  by_cases hv4 : addr.take 12 = v4InV6Prefix ∧ 96 ≤ ones
  · have hdrop : (cidrMask ones 16).drop 12 = cidrMask (ones - 96) 4 := by
      rw [cidrMask_append ones 12 4, List.drop_left' (length_cidrMask _ _)]
    have hfour : (addr.drop 12).length = 4 := by rw [List.length_drop, hlen]
    have hnumber : networkNumberAndMask ⟨masked addr ones 16, cidrMask ones 16⟩ =
        some (masked (addr.drop 12) (ones - 96) 4, cidrMask (ones - 96) 4) := by
      have hto4 : to4 (masked addr ones 16) = some ((masked addr ones 16).drop 12) := by
        rw [to4, if_neg (by omega), if_pos ⟨hmasked, hmap.mpr hv4⟩]
      rw [networkNumberAndMask, hto4]
      dsimp only
      rw [if_neg (by omega), if_pos hmask, List.drop_zipWith, hdrop]
    rw [if_pos hv4]
    exact contains_masked ip hfour (by omega) hnumber
  · have hnumber : networkNumberAndMask ⟨masked addr ones 16, cidrMask ones 16⟩ =
        some (masked addr ones 16, cidrMask ones 16) := by
      have hto4 : to4 (masked addr ones 16) = none := by
        rw [to4, if_neg (by omega), if_neg (fun h => hv4 (hmap.mp h.2))]
      rw [networkNumberAndMask, hto4]
      dsimp only
      rw [if_neg (by omega), if_pos hmask]
    rw [if_neg hv4]
    exact contains_masked ip hlen hones hnumber

/-- **A parsed network contains the addresses of the network that was written.** -/
theorem contains_parseCIDR (s ip : List UInt8) :
    (∃ n, parseCIDR s = some n ∧ n.contains ip = true) ↔
      ∃ c, readCidr s = some c ∧ c.Contains (reduceIP ip) := by
  unfold parseCIDR readCidr
  cases hslash : s.idxOf? 0x2f with
  | none => simp
  | some i =>
    dsimp only
    cases hip : parseIP (s.take i) with
    | none => simp
    | some addr =>
      cases hones : decimalValue (s.drop (i + 1)) with
      | none => simp
      | some ones =>
        have hlen := length_parseIP hip
        by_cases hdot : (s.take i).find? (fun c => c = 0x2e ∨ c = 0x3a ∨ c = 0x25) = some 0x2e
        · have hfour : (addr.drop 12).length = 4 := by rw [List.length_drop, hlen]
          simp only [hdot, if_true]
          by_cases hbig : 32 < ones
          · rw [if_pos hbig, if_pos hbig]
            simp
          rw [if_neg hbig, if_neg hbig]
          simpa using contains_four hfour (Nat.le_of_not_lt hbig)
        simp only [hdot, if_false]
        by_cases hbig : 128 < ones
        · rw [if_pos hbig, if_pos hbig]
          simp
        rw [if_neg hbig, if_neg hbig]
        have hiff := contains_sixteen ip hlen (Nat.le_of_not_lt hbig)
        rw [← apply_ite some]
        simpa using hiff

end SharkSocket.Lib
