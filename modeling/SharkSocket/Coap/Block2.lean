import SharkSocket.Coap.Server
import SharkSocket.Lib.BigEndian

/-!
# Block2 transfers

A client asks for block 0, adopts the size the server announces and asks for the
next block at that size until the M bit is clear.  `transfer` is that client
against `block2Reply`, the message with which `respond` answers.

The option value is a number below 2^24 in big-endian bytes without its leading
zeros, so `parseBlockOption` undoes `marshal` for every NUM of 20 bits.  Bodies
of at most 2^24 bytes need no larger NUM, whatever the block size.
-/

namespace SharkSocket.Coap

open Lib

/-! ### The option value -/

theorem beNat_skipZeros (l : Bytes) : beNat (BlockOption.skipZeros l) = beNat l := by
  induction l using BlockOption.skipZeros.induct with
  | case1 | case2 b => rfl
  | case3 c rest ih => rw [BlockOption.skipZeros, if_pos rfl, ih, beNat_zero_cons]
  | case4 b c rest hb => rw [BlockOption.skipZeros, if_neg hb]

theorem length_skipZeros_le (l : Bytes) : (BlockOption.skipZeros l).length ≤ l.length := by
  induction l using BlockOption.skipZeros.induct with
  | case1 | case2 b => exact le_rfl
  | case3 c rest ih => exact ih.trans (Nat.le_succ _)
  | case4 b c rest hb => rw [BlockOption.skipZeros, if_neg hb]

namespace BlockOption

/-- What the wire format can carry: 20 bits of NUM, and SZX 0 to 6. -/
structure Fits (b : BlockOption) : Prop where
  num_lt : b.num.toNat < 2 ^ 20
  sizeExp_le : b.sizeExp.toNat ≤ 6

variable {b : BlockOption}

theorem toNat_raw (h : b.Fits) :
    b.raw.toNat = b.num.toNat * 16 + (b.more.toNat * 8 + b.sizeExp.toNat) := by
  have hnum := h.num_lt
  have hexp := h.sizeExp_le
  have hlow : b.sizeExp.toUInt32.toNat = b.sizeExp.toNat := UInt8.toNat_toUInt32 _
  unfold raw
  cases b.more with
  | false =>
    rw [if_neg (by decide), toNat_shiftLeft_or (k := 4) rfl (by omega) (by decide) (by omega)]
    simp
  | true =>
    have hor : (b.sizeExp.toUInt32 ||| 0x08).toNat = 8 + b.sizeExp.toNat := by
      rw [UInt32.toNat_or, Nat.lor_comm]
      exact (Nat.two_pow_add_eq_or_of_lt (i := 3) (by omega) 1).symm
    rw [if_pos rfl, UInt32.or_assoc,
      toNat_shiftLeft_or (k := 4) rfl (by omega) (by decide) (by omega), hor]
    simp

theorem toNat_raw_lt (h : b.Fits) : b.raw.toNat < 2 ^ 24 := by
  have hnum := h.num_lt
  have hexp := h.sizeExp_le
  have hmore := b.more.toNat_le
  rw [toNat_raw h]
  omega

theorem beNat_marshal (h : b.Fits) : beNat b.marshal = b.raw.toNat := by
  unfold marshal
  split
  · rename_i hzero
    rw [hzero]
    rfl
  · rw [beNat_skipZeros, beNat_low, Nat.mod_eq_of_lt (toNat_raw_lt h)]

theorem length_marshal_le (b : BlockOption) : b.marshal.length ≤ 3 := by
  unfold marshal
  split
  · exact Nat.zero_le 3
  · exact length_skipZeros_le _

theorem beUInt32_marshal (h : b.Fits) : beUInt32 b.marshal = b.raw := by
  apply UInt32.toNat_inj.mp
  rw [toNat_beUInt32 ((length_marshal_le b).trans (by decide)), beNat_marshal h]

end BlockOption

/-- The triple that `parseBlockOption` reads from the number. -/
def unpack (raw : UInt32) : BlockOption :=
  ⟨raw >>> 4, raw &&& 0x08 ≠ 0, (raw &&& 0x07).toUInt8⟩

variable {b : BlockOption} {body chunk : Bytes} {req : Message} {cfg : Config}

theorem unpack_raw (h : b.Fits) : unpack b.raw = b := by
  have hraw := BlockOption.toNat_raw h
  have hexp := h.sizeExp_le
  have hmore := b.more.toNat_le
  have h1 : b.raw >>> 4 = b.num := by
    apply UInt32.toNat_inj.mp
    rw [UInt32.toNat_shiftRight, Nat.shiftRight_eq_div_pow]
    show b.raw.toNat / 16 = _
    omega
  have h2 : decide (b.raw &&& 0x08 ≠ 0) = b.more := by
    have hbit : (b.raw &&& 0x08).toNat = (b.raw.toNat.testBit 3).toNat * 8 := by
      exact Nat.and_two_pow _ 3
    have htest : b.raw.toNat.testBit 3 = b.more := by
      rw [Nat.testBit_eq_decide_div_mod_eq]
      cases hm : b.more <;> rw [hm] at hraw <;> simp only [Bool.toNat_true, Bool.toNat_false] at hraw
      · rw [decide_eq_false_iff_not]
        omega
      · rw [decide_eq_true_iff]
        omega
    rw [htest] at hbit
    cases hm : b.more with
    | false =>
      rw [hm] at hbit
      simpa [UInt32.toNat_inj] using UInt32.toNat_inj.mp hbit
    | true =>
      rw [hm] at hbit
      rw [decide_eq_true_iff]
      intro hzero
      rw [hzero] at hbit
      cases hbit
  have h3 : (b.raw &&& 0x07).toUInt8 = b.sizeExp := by
    apply UInt8.toNat_inj.mp
    have hmod : b.raw.toNat &&& 7 = b.raw.toNat % 8 := Nat.and_two_pow_sub_one_eq_mod _ 3
    show (b.raw.toNat &&& 7) % 256 = _
    omega
  unfold unpack
  rw [h1, h2, h3]

variable {v : Bytes} {n : Nat} {opt : BlockOption}

theorem parseBlockOption_eq (h : v.length ≤ 3) (hexp : (unpack (beUInt32 v)).sizeExp.toNat ≤ 6) :
    parseBlockOption v = .ok (unpack (beUInt32 v)) := by
  have hle : ¬ maxBlockSizeExp < (unpack (beUInt32 v)).sizeExp := by exact not_lt.mpr hexp
  unfold parseBlockOption
  rw [if_neg (by omega)]
  exact if_neg hle

/-- `parseBlockOption` undoes `Marshal`. -/
theorem parseBlockOption_marshal (h : b.Fits) : parseBlockOption b.marshal = .ok b := by
  have hraw : unpack (beUInt32 b.marshal) = b := by
    rw [BlockOption.beUInt32_marshal h, unpack_raw h]
  rw [parseBlockOption_eq (BlockOption.length_marshal_le b) (by rw [hraw]; exact h.sizeExp_le), hraw]

/-- What `parseBlockOption` returns could be sent again. -/
theorem fits_of_parse (h : parseBlockOption v = .ok b) : b.Fits := by
  unfold parseBlockOption at h
  dsimp only at h
  split at h
  · cases h
  split at h
  · cases h
  rename_i hle
  cases h
  refine ⟨?_, not_lt.mp fun hlt => hle (UInt8.lt_iff_toNat_lt.mpr hlt)⟩
  have hlt : beNat v < 256 ^ 3 :=
    (beNat_lt v).trans_le (Nat.pow_le_pow_right (by decide) (by omega))
  show (beUInt32 v >>> 4).toNat < 2 ^ 20
  rw [UInt32.toNat_shiftRight, Nat.shiftRight_eq_div_pow, toNat_beUInt32 (by omega)]
  show beNat v / 16 < 2 ^ 20
  omega

/-! ### Block sizes -/

def defaultBlockSize : Nat := 1024

def blockSizes : List Nat := [16, 32, 64, 128, 256, 512, 1024]

/-- The loop of `WithMaxBlockSize`: down to a power of two, or below 16. -/
def roundDown : Nat → Nat
  | 0 => 0
  | n + 1 => if 16 ≤ n + 1 ∧ (n + 1) &&& n ≠ 0 then roundDown n else n + 1

def withMaxBlockSize (size : Int) : Nat :=
  if size ≤ 0 then 0
  else
    let size := if defaultBlockSize < size.toNat then defaultBlockSize else size.toNat
    if roundDown size < 16 then 16 else roundDown size

theorem mem_blockSizes : n ∈ blockSizes ↔ ∃ e ≤ 6, n = 2 ^ (e + 4) := by
  constructor
  · intro h
    have hall : ∀ m ∈ blockSizes, ∃ e ≤ 6, m = 2 ^ (e + 4) := by decide
    exact hall n h
  · rintro ⟨e, he, rfl⟩
    have hall : ∀ e ≤ 6, 2 ^ (e + 4) ∈ blockSizes := by decide
    exact hall e he

theorem le_of_mem_blockSizes (h : n ∈ blockSizes) : 16 ≤ n := by
  have hall : ∀ m ∈ blockSizes, 16 ≤ m := by decide
  exact hall n h

theorem blockSize_le (h : n ∈ blockSizes) : n ≤ 1024 := by
  have hall : ∀ m ∈ blockSizes, m ≤ 1024 := by decide
  exact hall n h

theorem roundDown_small (hn : n < 16) : roundDown n = n := by
  cases n with
  | zero => rfl
  | succ n => rw [roundDown, if_neg (by omega)]

/-- **The loop stops at the greatest power of two**, from 16 on. -/
theorem roundDown_greatest (hn : 16 ≤ n) :
    IsGreatest {p | p.isPowerOfTwo ∧ p ≤ n} (roundDown n) := by
  induction n with
  | zero => omega
  | succ n ih =>
    have hpow : (n + 1) &&& n = 0 ↔ (n + 1).isPowerOfTwo :=
      Nat.and_sub_one_eq_zero_iff_isPowerOfTwo n.succ_ne_zero
    rw [roundDown]
    by_cases hstop : (n + 1).isPowerOfTwo
    · rw [if_neg (by simp [hpow.mpr hstop])]
      exact ⟨⟨hstop, le_rfl⟩, fun p hp => hp.2⟩
    rw [if_pos ⟨hn, mt hpow.mp hstop⟩]
    have hne : n + 1 ≠ 16 := fun h => hstop (h ▸ ⟨4, rfl⟩)
    obtain ⟨⟨hmem, hle⟩, hgreatest⟩ := ih (by omega)
    refine ⟨⟨hmem, by omega⟩, ?_⟩
    rintro p ⟨hp, hpn⟩
    have hpne : p ≠ n + 1 := fun h => hstop (h ▸ hp)
    exact hgreatest ⟨hp, by omega⟩

/-- **The size is rounded down to a legal one.**  Block-wise transfer is off exactly for sizes
up to 0, a size below 16 becomes 16, and any other the greatest legal size that is not
above it. -/
theorem withMaxBlockSize_rounds_down (size : Int) :
    (withMaxBlockSize size = 0 ↔ size ≤ 0) ∧
    (0 < size → size < 16 → withMaxBlockSize size = 16) ∧
    (16 ≤ size → IsGreatest {b | b ∈ blockSizes ∧ (b : Int) ≤ size} (withMaxBlockSize size)) := by
  by_cases hoff : size ≤ 0
  · have hzero : withMaxBlockSize size = 0 := if_pos hoff
    refine ⟨iff_of_true hzero hoff, ?_, ?_⟩
    · intro hpos
      omega
    · intro hge
      omega
  generalize hn : (if defaultBlockSize < size.toNat then defaultBlockSize else size.toNat) = n
  have hclamp : n = min 1024 size.toNat := by
    rw [← hn, defaultBlockSize]
    split <;> omega
  have hsize : withMaxBlockSize size = if roundDown n < 16 then 16 else roundDown n := by
    rw [withMaxBlockSize, if_neg hoff]
    dsimp only
    rw [hn]
  by_cases hsmall : size < 16
  · have hdown : roundDown n = n := roundDown_small (by omega)
    rw [hsize, hdown, if_pos (by omega)]
    refine ⟨by omega, fun _ _ => rfl, ?_⟩
    intro hge
    omega
  obtain ⟨⟨⟨k, hk⟩, hle⟩, hgreatest⟩ := roundDown_greatest (n := n) (by omega)
  have hge : 16 ≤ roundDown n := hgreatest ⟨⟨4, rfl⟩, by omega⟩
  rw [hsize, if_neg (not_lt.mpr hge)]
  refine ⟨by omega, ?_, ?_⟩
  · intro _ hlt
    omega
  · intro _
    refine ⟨⟨?_, by omega⟩, ?_⟩
    · have hlow : 4 ≤ k := (Nat.pow_le_pow_iff_right (by decide)).mp (hk ▸ hge : 2 ^ 4 ≤ 2 ^ k)
      have hhigh : k ≤ 10 :=
        (Nat.pow_le_pow_iff_right (by decide)).mp (hk ▸ (by omega) : 2 ^ k ≤ 2 ^ 10)
      refine mem_blockSizes.mpr ⟨k - 4, by omega, ?_⟩
      rw [hk, Nat.sub_add_cancel hlow]
    · rintro b ⟨hb, hbsize⟩
      have hb1024 := blockSize_le hb
      obtain ⟨e, -, rfl⟩ := mem_blockSizes.mp hb
      exact hgreatest ⟨⟨e + 4, rfl⟩, by omega⟩

theorem min_mem_blockSizes {m : Nat} (hm : m ∈ blockSizes) (hn : n ∈ blockSizes) :
    min m n ∈ blockSizes := by
  rcases min_choice m n with h | h <;> rwa [h]

/-- The larger of two sizes is a multiple of the smaller. -/
theorem min_dvd_of_mem {m : Nat} (hm : m ∈ blockSizes) (hn : n ∈ blockSizes) : min m n ∣ m := by
  obtain ⟨d, -, rfl⟩ := mem_blockSizes.mp hm
  obtain ⟨e, -, rfl⟩ := mem_blockSizes.mp hn
  rcases le_total d e with h | h
  · rw [min_eq_left (Nat.pow_le_pow_right (by decide) (by omega))]
  rw [min_eq_right (Nat.pow_le_pow_right (by decide) (by omega))]
  exact Nat.pow_dvd_pow 2 (by omega)

theorem size_mem_blockSizes (h : b.sizeExp.toNat ≤ 6) : b.size ∈ blockSizes := by
  refine mem_blockSizes.mpr ⟨b.sizeExp.toNat, h, ?_⟩
  have hadd : (b.sizeExp + 4).toNat = b.sizeExp.toNat + 4 := by
    exact Nat.mod_eq_of_lt (by show b.sizeExp.toNat + 4 < 256; omega)
  rw [BlockOption.size, hadd, Nat.shiftLeft_eq, one_mul]

theorem sizeExp_of_mem (h : n ∈ blockSizes) :
    (sizeExp n).toNat ≤ 6 ∧ 1 <<< (sizeExp n + 4).toNat = n := by
  have hall : ∀ m ∈ blockSizes,
      (sizeExp m).toNat ≤ 6 ∧ 1 <<< (sizeExp m + 4).toNat = m := by decide
  exact hall n h

/-! ### One block -/

theorem sliceBlock_eq (body : Bytes) (num : UInt32) (size : Nat) : sliceBlock body num size =
      if num.toNat * size < body.length then some ((body.drop (num.toNat * size)).take size,
          decide (num.toNat * size + size < body.length)) else none := by
  unfold sliceBlock
  generalize num.toNat * size = offset
  by_cases hout : body.length ≤ offset
  · rw [if_pos hout, if_neg (not_lt.mpr hout)]
  rw [if_neg hout, if_pos (not_le.mp hout)]
  by_cases hlast : body.length ≤ offset + size
  · rw [if_pos hlast, List.take_of_length_le (by rw [List.length_drop]; omega),
      decide_eq_false (not_lt.mpr hlast)]
  · rw [if_neg hlast, decide_eq_true (not_le.mp hlast)]

/-- A chunk of the body and the option that describes it. -/
structure Describes (body chunk : Bytes) (opt : BlockOption) : Prop where
  fits : opt.Fits
  inside : opt.num.toNat * opt.size < body.length
  chunk_eq : chunk = (body.drop (opt.num.toNat * opt.size)).take opt.size
  more_iff : opt.more = true ↔ opt.num.toNat * opt.size + opt.size < body.length

theorem describes_of_slice {num : UInt32} {more : Bool} {size : Nat} (hlen : body.length ≤ 2 ^ 24)
    (hsize : size ∈ blockSizes) (h : sliceBlock body num size = some (chunk, more)) :
    Describes body chunk ⟨num, more, sizeExp size⟩ := by
  obtain ⟨hexp, hback⟩ := sizeExp_of_mem hsize
  have hge := le_of_mem_blockSizes hsize
  have heq : (⟨num, more, sizeExp size⟩ : BlockOption).size = size := hback
  rw [sliceBlock_eq] at h
  split at h
  · cases h
    refine ⟨⟨?_, hexp⟩, by rwa [heq], by rw [heq], by rw [heq]; exact decide_eq_true_iff⟩
    by_contra hnum
    have hmul : 2 ^ 20 * 16 ≤ num.toNat * size := Nat.mul_le_mul (not_lt.mp hnum) hge
    omega
  · cases h

theorem describes_of_blockFor {req : BlockRequest} (hlen : body.length ≤ 2 ^ 24)
    (hsize : req.size ∈ blockSizes) (h : blockFor body req = some (chunk, some opt)) :
    Describes body chunk opt ∧ opt.size = req.size := by
  unfold blockFor at h
  split at h
  · cases h
  dsimp only at h
  split at h
  · cases h
  rename_i hslice
  cases h
  exact ⟨describes_of_slice hlen hsize hslice, (sizeExp_of_mem hsize).2⟩

theorem size_mem_of_negotiate {values : Options} {max : Nat} {req : BlockRequest}
    (hmax : max ∈ blockSizes) (h : negotiateBlock2 values max = .ok req) :
    req.size ∈ blockSizes := by
  unfold negotiateBlock2 at h
  split at h
  · cases h
    exact hmax
  split at h
  · cases h
  rename_i hparse
  cases h
  exact min_mem_blockSizes (size_mem_blockSizes (fits_of_parse hparse).sizeExp_le) hmax

/-- Whatever the request, an option the server sends describes the chunk beside
it. -/
theorem describes_of_applyBlock2 (hmax : cfg.maxBlockSize ∈ blockSizes)
    (hlen : body.length ≤ 2 ^ 24) (h : applyBlock2 cfg req body = some (chunk, some opt)) :
    Describes body chunk opt := by
  have hge := le_of_mem_blockSizes hmax
  unfold applyBlock2 at h
  rw [if_neg (by omega)] at h
  split at h
  · cases h
  rename_i hneg
  exact (describes_of_blockFor hlen (size_mem_of_negotiate hmax hneg) h).1

/-- The number is re-counted in the granted size, at the same offset. -/
theorem offset_of_applyBlock2 {body chunk : Bytes} {b : BlockOption}
    (hmax : cfg.maxBlockSize ∈ blockSizes) (hopt : req.options[block2Option]? = some v)
    (hb : parseBlockOption v = .ok b) (h : applyBlock2 cfg req body = some (chunk, some opt)) :
    opt.size = min b.size cfg.maxBlockSize ∧ opt.num.toNat * opt.size = b.num.toNat * b.size := by
  have hfits := fits_of_parse hb
  have hsize := size_mem_blockSizes hfits.sizeExp_le
  have hmin := min_mem_blockSizes hsize hmax
  have hlast := le_of_mem_blockSizes hmin
  unfold applyBlock2 negotiateBlock2 at h
  rw [if_neg (by omega), hopt] at h
  simp only [hb] at h
  unfold blockFor at h
  rw [if_neg (by simp)] at h
  dsimp only at h
  split at h
  · cases h
  cases h
  have hback := (sizeExp_of_mem hmin).2
  refine ⟨hback, ?_⟩
  have hnum : b.num.toNat * b.size / min b.size cfg.maxBlockSize < 2 ^ 32 := by
    have hnum_lt := hfits.num_lt
    have hmul : b.num.toNat * b.size ≤ 2 ^ 20 * 1024 :=
      Nat.mul_le_mul hnum_lt.le (blockSize_le hsize)
    exact (Nat.div_le_self _ _).trans_lt (by omega)
  show (UInt32.ofNat _).toNat * (1 <<< (sizeExp _ + 4).toNat) = _
  rw [hback, UInt32.toNat_ofNat', Nat.mod_eq_of_lt hnum]
  exact Nat.div_mul_cancel (dvd_mul_of_dvd_right (min_dvd_of_mem hsize hmax) _)

/-- A block inside the body, at the offset asked for. -/
theorem blockFor_eq {body : Bytes} (req : BlockRequest)
    (hlen : body.length ≤ 2 ^ 24) (hoff : req.offset < body.length) (hdvd : req.size ∣ req.offset)
    (hask : req.present = true ∨ req.size < body.length) :
    blockFor body req = some ((body.drop req.offset).take req.size,
      some ⟨UInt32.ofNat (req.offset / req.size), decide (req.offset + req.size < body.length),
        sizeExp req.size⟩) := by
  have hnum : (UInt32.ofNat (req.offset / req.size)).toNat * req.size = req.offset := by
    rw [UInt32.toNat_ofNat', Nat.mod_eq_of_lt, Nat.div_mul_cancel hdvd]
    have hle := Nat.div_le_self req.offset req.size
    omega
  have hask' : ¬ (req.present = false ∧ body.length ≤ req.size) := by
    rintro ⟨hfalse, hle⟩
    rcases hask with htrue | hlt
    · rw [htrue] at hfalse
      cases hfalse
    · omega
  unfold blockFor
  rw [if_neg hask']
  dsimp only
  rw [sliceBlock_eq, hnum, if_pos hoff]

/-! ### A transfer -/

/-- The piggybacked answer to a request outside an observe relation. -/
def block2Reply (cfg : Config) (req : Message) (body : Bytes) : Message :=
  match applyBlock2 cfg req body with
  | none => ack req codeBadOption []
  | some (chunk, none) => ack req (responseCode req.code) chunk
  | some (chunk, some b) =>
    { ack req (responseCode req.code) chunk with
      options := (∅ : Options).insert block2Option b.marshal }

/-- `respond` puts `block2Reply` on the wire. -/
theorem respond_eq {w : World} {t : Turn} {sess : Session} {dedup : Option ExchangeKey}
    {registered : Bool} {body : Bytes} (hcon : req.type = typeCON)
    (hobs : t.observerSeq sess req = (none, t)) :
    t.respond cfg w sess req dedup registered body =
      match (block2Reply cfg req body).marshal with
      | .error _ => t
      | .ok data => ((t.setResponse dedup data).send w sess data).2 := by
  have hseq : ∀ resp, t.addObserveSeq sess req resp = (resp, t) := by
    intro resp
    rw [Turn.addObserveSeq, hobs]
  have hsend : ∀ code payload opt,
      t.sendDedupResponse w sess req code payload dedup ⟨true, opt⟩ =
        match (opt.elim (ack req code payload) fun b =>
          { ack req code payload with
            options := (∅ : Options).insert block2Option b.marshal }).marshal with
        | .error _ => t
        | .ok data => ((t.setResponse dedup data).send w sess data).2 := by
    intro code payload opt
    unfold Turn.sendDedupResponse
    rw [hseq]
    cases opt <;> rfl
  unfold Turn.respond block2Reply
  rw [if_pos hcon]
  cases applyBlock2 cfg req body with
  | none => exact hsend codeBadOption [] none
  | some r =>
    obtain ⟨chunk, _ | b⟩ := r
    · exact hsend (responseCode req.code) chunk none
    · exact hsend (responseCode req.code) chunk (some b)

/-- The client's request for a block; the first may come without the option. -/
def askFor (head : Message) : Option BlockOption → Message
  | none => { head with options := head.options.erase block2Option }
  | some b => { head with options := head.options.insert block2Option b.marshal }

/-- What the client reads from an answer. -/
def readBlock (reply : Message) : Option (Bytes × Option BlockOption) :=
  if reply.code = codeBadOption then none
  else
    match reply.options[block2Option]? with
    | none => some (reply.payload, none)
    | some v =>
      match parseBlockOption v with
      | .error _ => none
      | .ok opt => some (reply.payload, some opt)

/-- The client's loop: request `i` has the header, the token and the other
options of `head i`.  The result is what each answer carried. -/
def transfer (cfg : Config) (body : Bytes) (head : Nat → Message) :
    Nat → Nat → Option BlockOption → Option (List (Bytes × Option BlockOption))
  | 0, _, _ => none
  | fuel + 1, i, ask =>
    match readBlock (block2Reply cfg (askFor (head i) ask) body) with
    | none => none
    | some (chunk, none) => some [(chunk, none)]
    | some (chunk, some opt) =>
      if opt.more then
        (transfer cfg body head fuel (i + 1) (some ⟨opt.num + 1, false, opt.sizeExp⟩)).map
          ((chunk, some opt) :: ·)
      else some [(chunk, some opt)]

theorem responseCode_ne (code : UInt8) : responseCode code ≠ codeBadOption := by
  unfold responseCode
  split
  · decide
  split
  · decide
  · split <;> decide

theorem readBlock_of_some {reply : Message} (hcode : reply.code ≠ codeBadOption)
    (hopt : reply.options[block2Option]? = some b.marshal) (hfits : b.Fits) :
    readBlock reply = some (reply.payload, some b) := by
  unfold readBlock
  rw [if_neg hcode, hopt]
  dsimp only
  rw [parseBlockOption_marshal hfits]

theorem readBlock_reply {body : Bytes} (hmax : cfg.maxBlockSize ∈ blockSizes)
    (hlen : body.length ≤ 2 ^ 24) :
    readBlock (block2Reply cfg req body) = applyBlock2 cfg req body := by
  unfold block2Reply
  cases happly : applyBlock2 cfg req body with
  | none => rfl
  | some r =>
    obtain ⟨chunk, _ | b⟩ := r
    · exact if_neg (responseCode_ne req.code)
    exact readBlock_of_some (responseCode_ne req.code) Std.ExtTreeMap.getElem?_insert_self
      (describes_of_applyBlock2 hmax hlen happly).fits

/-- The size the server grants to a client that asks for `ask`. -/
def granted (cfg : Config) : Option UInt8 → Nat
  | none => cfg.maxBlockSize
  | some szx => min (⟨0, false, szx⟩ : BlockOption).size cfg.maxBlockSize

/-- The first request: block 0. -/
def firstAsk (ask : Option UInt8) : Option BlockOption := ask.map fun szx => ⟨0, false, szx⟩

/-- Block `i` of the body and its option. -/
def blockAt (body : Bytes) (size i : Nat) : Bytes × Option BlockOption :=
  ((body.drop (i * size)).take size,
    some ⟨UInt32.ofNat i, decide (i * size + size < body.length), sizeExp size⟩)

section Exchange

variable {cfg : Config} {body : Bytes} {head : Message} {size : Nat}

section

variable (hmax : cfg.maxBlockSize ∈ blockSizes)
include hmax

theorem applyBlock2_ask (hb : b.Fits) : applyBlock2 cfg (askFor head (some b)) body =
      blockFor body ⟨true, b.num.toNat * b.size, min b.size cfg.maxBlockSize⟩ := by
  have hge := le_of_mem_blockSizes hmax
  unfold applyBlock2 negotiateBlock2 askFor
  rw [if_neg (by omega)]
  simp only [Std.ExtTreeMap.getElem?_insert_self, parseBlockOption_marshal hb]

theorem applyBlock2_plain :
    applyBlock2 cfg (askFor head none) body = blockFor body ⟨false, 0, cfg.maxBlockSize⟩ := by
  have hge := le_of_mem_blockSizes hmax
  unfold applyBlock2 negotiateBlock2 askFor
  rw [if_neg (by omega)]
  simp only [Std.ExtTreeMap.getElem?_erase_self]

/-- A request for block `i` at the size in use is answered with block `i`. -/
theorem readBlock_next {i : Nat} (hlen : body.length ≤ 2 ^ 24) (hsize : size ∈ blockSizes)
    (hle : size ≤ cfg.maxBlockSize) (hin : i * size < body.length) :
    readBlock (block2Reply cfg (askFor head (some ⟨UInt32.ofNat i, false, sizeExp size⟩)) body) =
      some (blockAt body size i) := by
  obtain ⟨hexp, hback⟩ := sizeExp_of_mem hsize
  have hge := le_of_mem_blockSizes hsize
  have hi : i < 2 ^ 20 := by
    by_contra hnot
    have hmul : 2 ^ 20 * 16 ≤ i * size := Nat.mul_le_mul (not_lt.mp hnot) hge
    omega
  have hnum : (UInt32.ofNat i).toNat = i := by exact Nat.mod_eq_of_lt (by omega)
  have hfits : (⟨UInt32.ofNat i, false, sizeExp size⟩ : BlockOption).Fits :=
    ⟨by rw [hnum]; exact hi, hexp⟩
  have hsz : (⟨UInt32.ofNat i, false, sizeExp size⟩ : BlockOption).size = size := hback
  rw [readBlock_reply hmax hlen, applyBlock2_ask hmax hfits, hsz, min_eq_left hle, hnum,
    blockFor_eq _ hlen hin (dvd_mul_left size i) (.inl rfl)]
  rw [Nat.mul_div_cancel _ (by omega)]
  rfl

/-- Unless a whole body fits and the option was not sent, the first answer is
block 0 at the granted size. -/
theorem readBlock_first {ask : Option UInt8} (hpos : 1 ≤ body.length) (hlen : body.length ≤ 2 ^ 24)
    (hask : ∀ szx ∈ ask, szx ≤ 6) (hwhole : ¬ (ask = none ∧ body.length ≤ cfg.maxBlockSize)) :
    readBlock (block2Reply cfg (askFor head (firstAsk ask)) body) =
      some (blockAt body (granted cfg ask) 0) := by
  rw [readBlock_reply hmax hlen]
  cases ask with
  | none =>
    have hlt : cfg.maxBlockSize < body.length := not_le.mp fun hle => hwhole ⟨rfl, hle⟩
    rw [firstAsk, Option.map_none, applyBlock2_plain hmax,
      blockFor_eq ⟨false, 0, _⟩ hlen hpos (dvd_zero _) (.inr hlt)]
    simp [blockAt, granted]
  | some szx =>
    have hfits : (⟨0, false, szx⟩ : BlockOption).Fits :=
      ⟨Nat.two_pow_pos 20, UInt8.le_iff_toNat_le.mp (hask szx rfl)⟩
    have hoff : (0 : UInt32).toNat * (⟨0, false, szx⟩ : BlockOption).size = 0 := zero_mul _
    rw [firstAsk, Option.map_some, applyBlock2_ask hmax hfits, hoff,
      blockFor_eq ⟨true, 0, _⟩ hlen hpos (dvd_zero _) (.inl rfl)]
    simp [blockAt, granted]

theorem granted_mem {ask : Option UInt8}
    (hask : ∀ szx ∈ ask, szx ≤ 6) : granted cfg ask ∈ blockSizes := by
  cases ask with
  | none => exact hmax
  | some szx =>
    exact min_mem_blockSizes (size_mem_blockSizes (UInt8.le_iff_toNat_le.mp (hask szx rfl))) hmax

end

theorem granted_le (cfg : Config) (ask : Option UInt8) : granted cfg ask ≤ cfg.maxBlockSize := by
  cases ask with
  | none => exact le_rfl
  | some szx => exact min_le_right _ _

end Exchange

section Rounds

variable {cfg : Config} {body : Bytes} {size : Nat}

/-- Block `i` exists iff it starts inside the body. -/
theorem lt_count_iff (hsize : 0 < size) (len i : Nat) :
    i < (len + size - 1) / size ↔ i * size < len := by
  rw [Nat.lt_iff_add_one_le, Nat.le_div_iff_mul_le hsize, Nat.add_mul]
  omega

theorem flatten_blocks (body : Bytes) (size n : Nat) :
    ((List.range n).map fun i => (body.drop (i * size)).take size).flatten =
      body.take (n * size) := by
  induction n with
  | zero => simp
  | succ n ih =>
    rw [List.range_succ, List.map_append, List.flatten_append, ih, Nat.add_mul, List.take_add]
    simp

/-- From block `i` on, with `k` more after it. -/
theorem transfer_from (head : Nat → Message) (hmax : cfg.maxBlockSize ∈ blockSizes)
    (hlen : body.length ≤ 2 ^ 24) (hsize : size ∈ blockSizes) (hle : size ≤ cfg.maxBlockSize)
    (k i j fuel : Nat) (hcount : (body.length + size - 1) / size = i + k + 1) (hfuel : k < fuel) :
    transfer cfg body head fuel j (some ⟨UInt32.ofNat i, false, sizeExp size⟩) =
      some ((List.range' i (k + 1)).map (blockAt body size)) := by
  have hge := le_of_mem_blockSizes hsize
  have hcounted := lt_count_iff (by omega : 0 < size) body.length
  induction k generalizing i j fuel with
  | zero =>
    obtain ⟨fuel, rfl⟩ := Nat.exists_eq_add_of_lt hfuel
    have hin := (hcounted i).mp (by omega)
    have hlast := mt (hcounted (i + 1)).mpr (by omega)
    rw [transfer, readBlock_next hmax hlen hsize hle hin]
    rw [Nat.add_mul, Nat.one_mul] at hlast
    simp [blockAt, hlast]
  | succ k ih =>
    obtain ⟨fuel, rfl⟩ := Nat.exists_eq_add_one_of_ne_zero (by omega : fuel ≠ 0)
    have hin := (hcounted i).mp (by omega)
    have hnext := (hcounted (i + 1)).mp (by omega)
    have hrest := ih (i + 1) (j + 1) fuel (by omega) (by omega)
    have hsucc : UInt32.ofNat i + 1 = UInt32.ofNat (i + 1) := (UInt32.ofNat_add i 1).symm
    rw [Nat.add_mul, Nat.one_mul] at hnext
    have hblock : blockAt body size i = ((body.drop (i * size)).take size,
        some ⟨UInt32.ofNat i, true, sizeExp size⟩) := by
      rw [blockAt, decide_eq_true hnext]
    rw [transfer, readBlock_next hmax hlen hsize hle hin, hblock]
    simp only [if_true, hsucc]
    have hrange : List.range' i (k + 1 + 1) = i :: List.range' (i + 1) (k + 1) := List.range'_succ
    rw [hrest, hrange, List.map_cons, hblock]
    rfl

/-- What a client has after a transfer at block size `size`. -/
structure Reassembles (body : Bytes) (size : Nat) (rounds : List (Bytes × Option BlockOption)) :
    Prop where
  body_eq : (rounds.map Prod.fst).flatten = body
  count_eq : rounds.length = (body.length + size - 1) / size
  chunk_length : ∀ (i : Nat) (chunk : Bytes) (opt : Option BlockOption),
    rounds[i]? = some (chunk, opt) → i + 1 < rounds.length →
      chunk.length = size ∧ ∃ b, opt = some b ∧ b.size = size
  option_eq : ∀ (i : Nat) (chunk : Bytes) (b : BlockOption),
    rounds[i]? = some (chunk, some b) →
      b.num.toNat = i ∧ b.size = size ∧ (b.more = true ↔ i + 1 < rounds.length)

theorem reassembles_whole (hpos : 1 ≤ body.length) (hle : body.length ≤ size) :
    Reassembles body size [(body, none)] where
  body_eq := by simp
  count_eq := by
    rw [List.length_singleton, eq_comm, Nat.div_eq_iff (by omega)]
    omega
  chunk_length := by
    intro i chunk opt _ hi
    simp at hi
  option_eq := by
    intro i chunk b hb
    cases i with
    | zero | succ i => cases hb

theorem reassembles_blocks (hsize : size ∈ blockSizes) (hlen : body.length ≤ 2 ^ 24) :
    Reassembles body size
      ((List.range ((body.length + size - 1) / size)).map (blockAt body size)) := by
  have hge := le_of_mem_blockSizes hsize
  have hcounted := lt_count_iff (by omega : 0 < size) body.length
  generalize hn : (body.length + size - 1) / size = n at hcounted
  have hget : ∀ (i : Nat) (r : Bytes × Option BlockOption),
      ((List.range n).map (blockAt body size))[i]? = some r → i < n ∧ r = blockAt body size i := by
    intro i r hr
    rw [List.getElem?_map, Option.map_eq_some_iff] at hr
    obtain ⟨j, hj, rfl⟩ := hr
    obtain ⟨hlt, rfl⟩ := List.getElem?_eq_some_iff.mp hj
    rw [List.getElem_range]
    exact ⟨by simpa using hlt, rfl⟩
  have hnext : ∀ i, i * size + size < body.length ↔ i + 1 < n := by
    intro i
    rw [hcounted, Nat.add_mul, Nat.one_mul]
  refine ⟨?_, by simp [hn], ?_, ?_⟩
  · have hall : body.length ≤ n * size := not_lt.mp fun hlt => lt_irrefl n ((hcounted n).mpr hlt)
    rw [List.map_map]
    exact (flatten_blocks body size n).trans (List.take_of_length_le hall)
  · intro i chunk opt hr hi
    obtain ⟨-, heq⟩ := hget i _ hr
    rw [List.length_map, List.length_range] at hi
    have hin := (hnext i).mpr hi
    cases heq
    refine ⟨?_, _, rfl, (sizeExp_of_mem hsize).2⟩
    rw [List.length_take, List.length_drop]
    omega
  · intro i chunk b hr
    obtain ⟨hi, heq⟩ := hget i _ hr
    have hin := (hcounted i).mp hi
    have hle : i ≤ i * size := Nat.le_mul_of_pos_right i (by omega)
    cases heq
    refine ⟨?_, (sizeExp_of_mem hsize).2, ?_⟩
    · exact Nat.mod_eq_of_lt (by omega)
    · rw [decide_eq_true_iff, hnext, List.length_map, List.length_range]

end Rounds

/-- **A Block2 transfer delivers the body.**  Every body of 1 to 2^24 bytes comes
in `⌈len / size⌉` answers, whatever size the server allows and the client asks
for.  An option the server sends decodes to the block beside it, which starts
where the requested one does. -/
theorem block2_reassembles (cfg : Config) (body : Bytes) (head : Nat → Message)
    (ask : Option UInt8) (hmax : cfg.maxBlockSize ∈ blockSizes) (hpos : 1 ≤ body.length)
    (hlen : body.length ≤ 2 ^ 24) (hask : ∀ szx ∈ ask, szx ≤ 6) :
    (∃ rounds, Reassembles body (granted cfg ask) rounds ∧
      ∀ fuel, rounds.length ≤ fuel →
        transfer cfg body head fuel 0 (firstAsk ask) = some rounds) ∧
    ∀ (req : Message) (chunk : Bytes) (opt : BlockOption),
      applyBlock2 cfg req body = some (chunk, some opt) →
        parseBlockOption opt.marshal = .ok opt ∧ Describes body chunk opt ∧
        ∀ v b, req.options[block2Option]? = some v → parseBlockOption v = .ok b →
          opt.size = min b.size cfg.maxBlockSize ∧
            opt.num.toNat * opt.size = b.num.toNat * b.size := by
  refine ⟨?_, ?_⟩
  · have hsize := granted_mem hmax hask
    have hge := le_of_mem_blockSizes hsize
    by_cases hwhole : ask = none ∧ body.length ≤ cfg.maxBlockSize
    · obtain ⟨rfl, hle⟩ := hwhole
      refine ⟨_, reassembles_whole hpos hle, fun fuel hfuel => ?_⟩
      obtain ⟨fuel, rfl⟩ := Nat.exists_eq_add_of_le' hfuel
      rw [List.length_singleton, transfer, readBlock_reply hmax hlen, firstAsk, Option.map_none,
        applyBlock2_plain hmax, blockFor, if_pos ⟨rfl, hle⟩]
    · refine ⟨_, reassembles_blocks hsize hlen, fun fuel hfuel => ?_⟩
      rw [List.length_map, List.length_range] at hfuel
      obtain ⟨k, hk⟩ := Nat.exists_eq_add_one_of_ne_zero
        ((lt_count_iff (by omega) body.length 0).mpr (by omega) : 0 <
          (body.length + granted cfg ask - 1) / granted cfg ask).ne'
      obtain ⟨fuel, rfl⟩ := Nat.exists_eq_add_one_of_ne_zero (by omega : fuel ≠ 0)
      -- the first answer is the one a request for block 0 at the granted size would get
      have hfirst : transfer cfg body head (fuel + 1) 0 (firstAsk ask) =
          transfer cfg body head (fuel + 1) 0
            (some ⟨UInt32.ofNat 0, false, sizeExp (granted cfg ask)⟩) := by
        rw [transfer, transfer, readBlock_first hmax hpos hlen hask hwhole,
          readBlock_next hmax hlen hsize (granted_le cfg ask) (by omega)]
      rw [hfirst, transfer_from head hmax hlen hsize (granted_le cfg ask) k 0 0 _ (by omega)
        (by omega), hk, List.range_eq_range']
  · intro req chunk opt happly
    have hdesc := describes_of_applyBlock2 hmax hlen happly
    refine ⟨parseBlockOption_marshal hdesc.fits, hdesc, fun v b hopt hb => ?_⟩
    exact offset_of_applyBlock2 hmax hopt hb happly

/-- 40 bytes at 16 from a server that would send 32. -/
theorem block2_reassembles_forty :
    ∃ rounds, transfer ⟨true, false, 32, 0⟩ (List.replicate 40 7)
        (fun i => ⟨typeCON, codeGet, UInt16.ofNat i, [1], ∅, []⟩) 3 0 (some ⟨0, false, 0⟩) =
          some rounds ∧ rounds.length = 3 := by
  obtain ⟨⟨rounds, hre, hrun⟩, -⟩ := block2_reassembles ⟨true, false, 32, 0⟩
    (List.replicate 40 7) (fun i => ⟨typeCON, codeGet, UInt16.ofNat i, [1], ∅, []⟩) (some 0)
    (by decide) (by decide) (by simp) (by rintro _ ⟨⟩; decide)
  have hcount : rounds.length = 3 := hre.count_eq.trans (by decide)
  exact ⟨rounds, hrun 3 hcount.le, hcount⟩

end SharkSocket.Coap
