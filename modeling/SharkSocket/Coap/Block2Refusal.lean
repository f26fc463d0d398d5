import SharkSocket.Coap.Block2

/-!
# Which Block2 requests are refused

The option value is read here as a number: the low three bits are the size exponent and
the bits above the fourth the block number.  `askedSize` and `askedOffset` are what it
asks for, whatever the server grants.

`applyBlock2_asked` is the whole of `applyBlock2` for a request that carries the option:
the offset survives the change of units, and a request is refused iff the value is
undecodable or the offset is not inside the body.  Nothing is inside an empty body, so
block 0 of an empty body is refused as well (`empty_body_refused`).  For every other
request that is the same as a positive offset past the end (`applyBlock2_refuses`).
-/

namespace SharkSocket.Coap

open Lib

/-! ### The value -/

/-- More than three bytes, or the reserved size exponent. -/
def Undecodable (v : Bytes) : Prop := 3 < v.length ∨ beNat v % 8 = 7

instance (v : Bytes) : Decidable (Undecodable v) := inferInstanceAs (Decidable (_ ∨ _))

def askedSize (v : Bytes) : Nat := 2 ^ (beNat v % 8 + 4)

def askedOffset (v : Bytes) : Nat := beNat v / 16 * askedSize v

variable {v : Bytes}

theorem toNat_unpack (h : v.length ≤ 3) : (unpack (beUInt32 v)).num.toNat = beNat v / 16 ∧
      (unpack (beUInt32 v)).sizeExp.toNat = beNat v % 8 := by
  have hraw : (beUInt32 v).toNat = beNat v := toNat_beUInt32 (by omega)
  constructor
  · show (beUInt32 v >>> 4).toNat = _
    rw [UInt32.toNat_shiftRight, Nat.shiftRight_eq_div_pow, hraw]
    rfl
  · show (beUInt32 v &&& 0x07).toUInt8.toNat = _
    have hmod : beNat v &&& 7 = beNat v % 8 := Nat.and_two_pow_sub_one_eq_mod _ 3
    rw [UInt32.toNat_toUInt8, UInt32.toNat_and, hraw]
    show (beNat v &&& 7) % 256 = _
    omega

theorem parseBlockOption_undecodable (h : Undecodable v) : ∃ e, parseBlockOption v = .error e := by
  unfold parseBlockOption
  by_cases hlen : 3 < v.length
  · exact ⟨_, if_pos hlen⟩
  rw [if_neg hlen]
  have hexp : maxBlockSizeExp < (unpack (beUInt32 v)).sizeExp := by
    rw [UInt8.lt_iff_toNat_lt, (toNat_unpack (Nat.le_of_not_lt hlen)).2, h.resolve_left hlen]
    decide
  exact ⟨_, if_pos hexp⟩

/-- What `parseBlockOption` reads, in terms of the number. -/
theorem parseBlockOption_decodable (h : ¬ Undecodable v) :
    ∃ b, parseBlockOption v = .ok b ∧ b.size = askedSize v ∧
      b.num.toNat * b.size = askedOffset v := by
  have hlen : v.length ≤ 3 := Nat.le_of_not_lt fun hlong => h (.inl hlong)
  have hseven : beNat v % 8 ≠ 7 := fun hres => h (.inr hres)
  obtain ⟨hnum, hexp⟩ := toNat_unpack hlen
  have hle : (unpack (beUInt32 v)).sizeExp.toNat ≤ 6 := by omega
  have hsize : (unpack (beUInt32 v)).size = askedSize v := by
    have hadd : ((unpack (beUInt32 v)).sizeExp + 4).toNat = beNat v % 8 + 4 := by
      rw [UInt8.toNat_add, hexp]
      show (beNat v % 8 + 4) % 256 = _
      omega
    rw [BlockOption.size, hadd, Nat.shiftLeft_eq, one_mul, askedSize]
  refine ⟨_, parseBlockOption_eq hlen hle, hsize, ?_⟩
  rw [hsize, hnum, askedOffset]

theorem askedSize_mem (h : ¬ Undecodable v) : askedSize v ∈ blockSizes := by
  have hseven : beNat v % 8 ≠ 7 := fun hres => h (.inr hres)
  exact mem_blockSizes.mpr ⟨beNat v % 8, by omega, rfl⟩

/-- The offset of a decodable value is below 2^30. -/
theorem askedOffset_lt (h : ¬ Undecodable v) : askedOffset v < 2 ^ 30 := by
  have hlen : v.length ≤ 3 := Nat.le_of_not_lt fun hlong => h (.inl hlong)
  have hval : beNat v < 256 ^ 3 :=
    (beNat_lt v).trans_le (Nat.pow_le_pow_right (by decide) hlen)
  have hsize := blockSize_le (askedSize_mem h)
  calc askedOffset v
      ≤ beNat v / 16 * 1024 := Nat.mul_le_mul_left _ hsize
    _ < 2 ^ 30 := by omega

/-! ### The answer -/

section Answer

variable {cfg : Config} {req : Message} {v : Bytes}

/-- The size the server grants. -/
def grantedSize (cfg : Config) (v : Bytes) : Nat := min (askedSize v) cfg.maxBlockSize

section

variable (hmax : cfg.maxBlockSize ∈ blockSizes)
include hmax

theorem grantedSize_mem (h : ¬ Undecodable v) :
    grantedSize cfg v ∈ blockSizes :=
  min_mem_blockSizes (askedSize_mem h) hmax

/-- The number in units of the granted size names the same offset. -/
theorem regranted_offset (h : ¬ Undecodable v) :
    (UInt32.ofNat (askedOffset v / grantedSize cfg v)).toNat * grantedSize cfg v =
      askedOffset v := by
  have hlt := askedOffset_lt h
  have hdiv := Nat.div_le_self (askedOffset v) (grantedSize cfg v)
  have hdvd : grantedSize cfg v ∣ askedOffset v :=
    dvd_mul_of_dvd_right (min_dvd_of_mem (askedSize_mem h) hmax) _
  rw [UInt32.toNat_ofNat', Nat.mod_eq_of_lt (by omega), Nat.div_mul_cancel hdvd]

/-- **`applyBlock2` on a request with the option.** -/
theorem applyBlock2_asked (hopt : req.options[block2Option]? = some v) (body : Bytes) :
    applyBlock2 cfg req body = if Undecodable v ∨ body.length ≤ askedOffset v then none
      else some ((body.drop (askedOffset v)).take (grantedSize cfg v),
        some ⟨UInt32.ofNat (askedOffset v / grantedSize cfg v),
          decide (askedOffset v + grantedSize cfg v < body.length),
          sizeExp (grantedSize cfg v)⟩) := by
  have hge := le_of_mem_blockSizes hmax
  rw [applyBlock2, if_neg (by omega), negotiateBlock2, hopt]
  by_cases hbad : Undecodable v
  · obtain ⟨e, he⟩ := parseBlockOption_undecodable hbad
    rw [if_pos (.inl hbad)]
    simp only [he]
  obtain ⟨b, hb, hsize, hoffset⟩ := parseBlockOption_decodable hbad
  simp only [hb, hoffset]
  rw [hsize, ← grantedSize, blockFor, if_neg (by simp)]
  dsimp only
  rw [sliceBlock_eq, regranted_offset hmax hbad]
  by_cases hin : askedOffset v < body.length
  · rw [if_pos hin, if_neg (not_or.mpr ⟨hbad, Nat.not_le.mpr hin⟩)]
  · rw [if_neg hin, if_pos (.inr (Nat.le_of_not_lt hin))]

end

/-- **Block2 requests are refused when they should be**, except for block 0 of an empty
body: on an undecodable value or a positive offset past the end.  Otherwise the answer is
the bytes at the offset, up to the granted size, and M says whether bytes remain. -/
theorem applyBlock2_refuses (body : Bytes) (hmax : cfg.maxBlockSize ∈ blockSizes)
    (hopt : req.options[block2Option]? = some v)
    (hbody : body = [] → Undecodable v ∨ 0 < askedOffset v) :
    (applyBlock2 cfg req body = none ↔
      Undecodable v ∨ (0 < askedOffset v ∧ body.length ≤ askedOffset v)) ∧
    ∀ chunk opt, applyBlock2 cfg req body = some (chunk, opt) →
      chunk = (body.drop (askedOffset v)).take (grantedSize cfg v) ∧
      ∃ b, opt = some b ∧ b.size = grantedSize cfg v ∧
        b.num.toNat * b.size = askedOffset v ∧
        (b.more = true ↔ askedOffset v + grantedSize cfg v < body.length) := by
  rw [applyBlock2_asked hmax hopt body]
  constructor
  · constructor
    · intro hnone
      by_contra hfine
      rw [not_or] at hfine
      have hin : ¬ body.length ≤ askedOffset v := by
        intro hout
        -- an offset of zero is outside an empty body only
        have hzero : ¬ 0 < askedOffset v := fun hpos => hfine.2 ⟨hpos, hout⟩
        have hnil : body = [] := List.length_eq_zero_iff.mp (by omega)
        exact (hbody hnil).elim hfine.1 hzero
      rw [if_neg (not_or.mpr ⟨hfine.1, hin⟩)] at hnone
      cases hnone
    · rintro (hbad | ⟨-, hout⟩)
      · exact if_pos (.inl hbad)
      · exact if_pos (.inr hout)
  · intro chunk opt hsome
    split at hsome
    · cases hsome
    rename_i hfine
    rw [not_or] at hfine
    cases hsome
    have hback := (sizeExp_of_mem (grantedSize_mem hmax hfine.1)).2
    refine ⟨rfl, _, rfl, hback, ?_, decide_eq_true_iff⟩
    rw [BlockOption.size, hback]
    exact regranted_offset hmax hfine.1

end Answer

/-- A confirmable GET with a Block2 option. -/
def askBlock (v : Bytes) : Message :=
  ⟨typeCON, codeGet, 0, [], (∅ : Options).insert block2Option v, []⟩

/-- Block 1 of 32 bytes, from a server that sends 16, of a body of 40: bytes 32 to 39. -/
theorem applyBlock2_refuses_secondBlock :
    ∃ chunk b, applyBlock2 ⟨true, false, 16, 0⟩ (askBlock [0x11]) (List.replicate 40 7) =
        some (chunk, some b) ∧ chunk = List.replicate 8 7 ∧ b.more = false := by
  have hopt : (askBlock [0x11]).options[block2Option]? = some [0x11] := by
    exact Std.ExtTreeMap.getElem?_insert_self
  obtain ⟨hnone, hchunk⟩ := @applyBlock2_refuses ⟨true, false, 16, 0⟩ _ _
    (List.replicate 40 7) (by decide) hopt (fun hnil => by cases hnil)
  cases happly : applyBlock2 ⟨true, false, 16, 0⟩ (askBlock [0x11]) (List.replicate 40 7) with
  | none => exact absurd (hnone.mp happly) (by decide)
  | some answer =>
    obtain ⟨chunk, opt⟩ := answer
    obtain ⟨rfl, b, rfl, -, -, hmore⟩ := hchunk chunk opt happly
    refine ⟨_, b, rfl, by decide, ?_⟩
    rw [Bool.eq_false_iff, Ne, hmore]
    decide

/-- Block 0 of an empty body is refused, although its value is decodable and its offset is
zero. -/
theorem empty_body_refused :
    applyBlock2 ⟨true, false, 1024, 0⟩ (askBlock []) [] = none ∧ ¬ Undecodable [] ∧
      askedOffset [] = 0 := by
  have hopt : (askBlock []).options[block2Option]? = some [] :=
    Std.ExtTreeMap.getElem?_insert_self
  refine ⟨?_, by decide, by decide⟩
  rw [applyBlock2_asked (by decide) hopt]
  exact if_pos (.inr (Nat.zero_le _))

end SharkSocket.Coap
