import SharkSocket.Coap.Message
import SharkSocket.Lib.Keys

/-!
# The CoAP codec round trip

`parse` undoes `marshal` on every message that `marshal` is meant for: type at
most 3, a token of at most 8 bytes, and option values of at most 65535 bytes.

The proof follows one option through.  `encodeOption_eq` says what the encoder
writes for it: a header byte, the extended delta, the extended length and the
value.  `parseOption_optionBytes` says the decoder reads exactly these bytes back
and stops behind them, whatever follows.  The header byte is never the payload
marker, because neither of its nibbles is 15 (`header_byte`).  The loops then
meet by induction over the sorted option numbers (`parseOptionsLoop_encodeOptions`),
with the running number of the decoder equal to the encoder's `prevNum`.
-/

namespace SharkSocket.Coap

open Std (ExtTreeMap)

/-! ### Bytes -/

theorem header_table : ∀ i j : Fin 15,
    ((UInt8.ofNat i <<< 4) ||| UInt8.ofNat j) >>> 4 = UInt8.ofNat i ∧
      ((UInt8.ofNat i <<< 4) ||| UInt8.ofNat j) &&& 0x0f = UInt8.ofNat j ∧
      (UInt8.ofNat i <<< 4) ||| UInt8.ofNat j ≠ 0xff := by
  decide +kernel

theorem header_byte {d l : UInt8} (hd : d < 15) (hl : l < 15) :
    ((d <<< 4) ||| l) >>> 4 = d ∧ ((d <<< 4) ||| l) &&& 0x0f = l ∧ (d <<< 4) ||| l ≠ 0xff := by
  have h := header_table ⟨d.toNat, UInt8.lt_iff_toNat_lt.mp hd⟩
    ⟨l.toNat, UInt8.lt_iff_toNat_lt.mp hl⟩
  simpa using h

theorem first_table : ∀ (i : Fin 4) (j : Fin 9),
    ((version <<< 6) ||| ((UInt8.ofNat i &&& 0x03) <<< 4) ||| UInt8.ofNat j) >>> 6 = version ∧
      (((version <<< 6) ||| ((UInt8.ofNat i &&& 0x03) <<< 4) ||| UInt8.ofNat j) &&& 0x0f).toNat = j ∧
      (((version <<< 6) ||| ((UInt8.ofNat i &&& 0x03) <<< 4) ||| UInt8.ofNat j) >>> 4) &&& 0x03 =
        UInt8.ofNat i := by
  decide +kernel

theorem first_byte {t : UInt8} {n : Nat} (ht : t ≤ 3) (hn : n ≤ 8) :
    ((version <<< 6) ||| ((t &&& 0x03) <<< 4) ||| UInt8.ofNat n) >>> 6 = version ∧
      (((version <<< 6) ||| ((t &&& 0x03) <<< 4) ||| UInt8.ofNat n) &&& 0x0f).toNat = n ∧
      (((version <<< 6) ||| ((t &&& 0x03) <<< 4) ||| UInt8.ofNat n) >>> 4) &&& 0x03 = t := by
  have ht' : t.toNat < 4 := by
    have := UInt8.le_iff_toNat_le.mp ht
    simp at this
    omega
  have h := first_table ⟨t.toNat, ht'⟩ ⟨n, by omega⟩
  simpa using h

theorem uint16BE_putUint16BE (v : UInt16) : uint16BE (v >>> 8).toUInt8 v.toUInt8 = v := by
  apply UInt16.toNat_inj.mp
  have hv := v.toNat_lt
  rw [uint16BE, UInt16.toNat_or, UInt8.toNat_toUInt16, UInt16.toNat_toUInt8, UInt16.toNat_shiftLeft,
    UInt8.toNat_toUInt16, UInt16.toNat_toUInt8, UInt16.toNat_shiftRight]
  simp only [UInt16.reduceToNat, Nat.reduceMod, Nat.shiftLeft_eq, Nat.shiftRight_eq_div_pow]
  have hlo : v.toNat % 2 ^ 8 < 2 ^ 8 := Nat.mod_lt _ (by decide)
  have hhi : v.toNat / 2 ^ 8 % 2 ^ 8 * 2 ^ 8 % 2 ^ 16 = 2 ^ 8 * (v.toNat / 2 ^ 8) := by omega
  rw [hhi, Nat.or_comm, ← Nat.two_pow_add_eq_or_of_lt hlo]
  omega

/-- A nibble below 15 passes the check for the reserved one. -/
theorem not_reserved {nibble : UInt8} (h : nibble < 15) : ¬ (14 : UInt32) < nibble.toUInt32 := by
  have hlt := UInt8.lt_iff_toNat_lt.mp h
  change nibble.toNat < 15 at hlt
  change ¬ 14 < nibble.toNat
  omega

/-! ### The extended fields -/

/-- The bytes that follow the header byte for a delta or a length `v`. -/
def extended (v : UInt16) : Bytes :=
  if v < 13 then []
  else if v < 269 then [(v.toUInt32 - 13).toUInt8]
  else putUint16BE (v.toUInt32 - 269).toUInt16

theorem optionNibble_lt (v : UInt16) : optionNibble v < 15 := by
  rw [optionNibble]
  split
  · rename_i h
    have hn := UInt16.lt_iff_toNat_lt.mp h
    rw [UInt8.lt_iff_toNat_lt]
    simp at hn ⊢
    omega
  · split <;> decide

variable {num prev v : UInt16} {m : Message}

theorem optionNibble_small (h : v < 13) : (optionNibble v).toUInt32 = v.toUInt32 := by
  have hn := UInt16.lt_iff_toNat_lt.mp h
  rw [optionNibble, if_pos h]
  apply UInt32.toNat_inj.mp
  simp at hn ⊢
  omega

theorem toUInt32_lt {w : UInt16} (h : v < w) : v.toUInt32 < w.toUInt32 := by
  exact UInt16.lt_iff_toNat_lt.mp h

theorem toNat_toUInt32_sub {w : UInt16} (h : w.toNat ≤ v.toNat) :
    (v.toUInt32 - w.toUInt32).toNat = v.toNat - w.toNat := by
  rw [UInt32.toNat_sub_of_le _ _ (by
    exact h), UInt16.toNat_toUInt32, UInt16.toNat_toUInt32]

theorem encodeExtendedField_nibble (buf : Bytes) (v : UInt16) :
    encodeExtendedField buf v.toUInt32 (optionNibble v).toUInt32 = .ok (buf ++ extended v) := by
  have hlt := v.toNat_lt
  by_cases h13 : v < 13
  · have hn := UInt32.lt_iff_toNat_lt.mp (toUInt32_lt h13)
    have h12 : v.toUInt32 ≤ 12 := by
      rw [UInt32.le_iff_toNat_le]
      simp at hn ⊢
      omega
    rw [optionNibble_small h13, encodeExtendedField, if_pos h12, extended, if_pos h13,
      List.append_nil]
  have h13n := UInt16.le_iff_toNat_le.mp (UInt16.not_lt.mp h13)
  by_cases h269 : v < 269
  · have hn := UInt16.lt_iff_toNat_lt.mp h269
    have hrange : ¬ (v.toUInt32 < 13 ∨ 268 < v.toUInt32) := by
      rw [UInt32.lt_iff_toNat_lt, UInt32.lt_iff_toNat_lt]
      simp at hn h13n ⊢
      omega
    rw [optionNibble, if_neg h13, if_pos h269, extended, if_neg h13, if_pos h269,
      encodeExtendedField, if_neg (by decide), if_pos (by decide), if_neg hrange]
  have hn := UInt16.le_iff_toNat_le.mp (UInt16.not_lt.mp h269)
  have hrange : ¬ (v.toUInt32 < 269 ∨ 65535 < v.toUInt32) := by
    rw [UInt32.lt_iff_toNat_lt, UInt32.lt_iff_toNat_lt]
    simp at hn ⊢
    omega
  rw [optionNibble, if_neg h13, if_neg h269, extended, if_neg h13, if_neg h269,
    encodeExtendedField, if_neg (by decide), if_neg (by decide), if_pos (by decide),
    if_neg hrange]

theorem readOptionExtended_nibble (v : UInt16) (rest : Bytes) :
    readOptionExtended (extended v ++ rest) (optionNibble v).toUInt32 =
      (v.toUInt32, (extended v).length) := by
  have hlt := v.toNat_lt
  by_cases h13 : v < 13
  · have h : v.toUInt32 < 13 := toUInt32_lt h13
    rw [optionNibble_small h13, extended, if_pos h13]
    unfold readOptionExtended
    rw [if_pos h]
    rfl
  have h13n := UInt16.le_iff_toNat_le.mp (UInt16.not_lt.mp h13)
  by_cases h269 : v < 269
  · have hn := UInt16.lt_iff_toNat_lt.mp h269
    rw [optionNibble, if_neg h13, if_pos h269, extended, if_neg h13, if_pos h269]
    unfold readOptionExtended
    refine Prod.ext ?_ rfl
    have hsub : (v.toUInt32 - 13).toNat = v.toNat - 13 := @toNat_toUInt32_sub v 13 h13n
    apply UInt32.toNat_inj.mp
    show ((v.toUInt32 - 13).toUInt8.toUInt32 + 13).toNat = _
    rw [UInt32.toNat_add, UInt8.toNat_toUInt32, UInt32.toNat_toUInt8]
    simp at hn h13n ⊢
    omega
  · have hn := UInt16.le_iff_toNat_le.mp (UInt16.not_lt.mp h269)
    rw [optionNibble, if_neg h13, if_neg h269, extended, if_neg h13, if_neg h269]
    unfold readOptionExtended
    refine Prod.ext ?_ rfl
    show (uint16BE _ _).toUInt32 + 269 = v.toUInt32
    have hsub : (v.toUInt32 - 269).toNat = v.toNat - 269 := @toNat_toUInt32_sub v 269 hn
    rw [uint16BE_putUint16BE]
    apply UInt32.toNat_inj.mp
    simp at hn ⊢
    omega

/-! ### One option -/

/-- What the encoder writes for one option. -/
def optionBytes (delta : UInt16) (value : Bytes) : Bytes :=
  ((optionNibble delta <<< 4) ||| optionNibble (UInt16.ofNat value.length)) ::
    (extended delta ++ extended (UInt16.ofNat value.length) ++ value)

theorem encodeOption_eq (delta : UInt16) (value : Bytes) :
    encodeOption delta value = .ok (optionBytes delta value) := by
  rw [encodeOption, encodeOptionHeader, encodeExtendedField_nibble]
  show (encodeExtendedField _ _ _ >>= fun header => Except.ok (header ++ value)) = _
  rw [encodeExtendedField_nibble]
  show Except.ok _ = _
  rw [optionBytes]
  simp

/-- **The decoder reads one encoded option back** and stops right behind it. -/
theorem parseOption_optionBytes (hle : prev ≤ num) {value : Bytes} (hv : value.length ≤ 65535)
    (rest : Bytes) :
    parseOption (optionBytes (num - prev) value ++ rest) prev = some (num, value, rest) := by
  have hlen : (UInt16.ofNat value.length).toUInt32.toNat = value.length := by
    rw [UInt16.toNat_toUInt32, UInt16.toNat_ofNat']
    omega
  have hnum : prev + (num - prev).toUInt32.toUInt16 = num := by
    rw [UInt16.toUInt16_toUInt32]
    exact add_sub_cancel prev num
  have hguard : ¬ 65535 - prev.toUInt32 < (num - prev).toUInt32 := by
    have h1 := UInt16.le_iff_toNat_le.mp hle
    have h2 := num.toNat_lt
    rw [UInt32.lt_iff_toNat_lt, UInt32.toNat_sub_of_le _ _ (by
      rw [UInt32.le_iff_toNat_le]
      simp
      omega), UInt16.toNat_toUInt32, UInt16.toNat_toUInt32, UInt16.toNat_sub_of_le _ _ hle]
    simp
    omega
  have hnib : ∀ v : UInt16, ¬ (14 : UInt32) < (optionNibble v).toUInt32 :=
    fun v => not_reserved (optionNibble_lt v)
  obtain ⟨hd, hl, -⟩ := header_byte (optionNibble_lt (num - prev))
    (optionNibble_lt (UInt16.ofNat value.length))
  simp only [parseOption, optionBytes, List.cons_append, decodeOptionHeader, hd, hl, one_ne_zero,
    if_false, List.drop_succ_cons, List.drop_zero, List.append_assoc]
  rw [if_neg (by simp only [hnib, or_self, not_false_eq_true])]
  simp only [List.drop_left, readOptionExtended_nibble, hlen, hnum]
  rw [if_neg hguard, if_neg (by simp), List.take_left]

/-! ### All options -/

/-- Every value is short enough for the 16-bit length the encoder announces. -/
def ShortValues (opts : Options) : Prop :=
  ∀ (num : UInt16) (v : Bytes), opts[num]? = some v → v.length ≤ 65535

theorem shortValues_empty : ShortValues ∅ := by
  intro num v h
  simp at h

theorem ShortValues.insert {opts : Options} (h : ShortValues opts) (num : UInt16) {v : Bytes}
    (hv : v.length ≤ 65535) : ShortValues (opts.insert num v) :=
  Lib.forall_insert h hv

theorem parseOptionsLoop_cons {b : UInt8} {tail rest val : Bytes} (options : Options)
    (hb : b ≠ 0xff) (h : parseOption (b :: tail) prev = some (num, val, rest)) :
    parseOptionsLoop (b :: tail) prev options =
      parseOptionsLoop rest num (options.insert num val) := by
  rw [parseOptionsLoop, if_neg hb]
  split
  · rename_i hn
    rw [h] at hn
    cases hn
  rename_i num' val' rest' hs
  rw [h] at hs
  cases hs
  rfl

theorem parseOptionsLoop_optionBytes (hle : prev ≤ num) {value : Bytes} (hv : value.length ≤ 65535)
    (rest : Bytes) (options : Options) :
    parseOptionsLoop (optionBytes (num - prev) value ++ rest) prev options =
      parseOptionsLoop rest num (options.insert num value) := by
  have h := parseOption_optionBytes hle hv rest
  have hb := (header_byte (optionNibble_lt (num - prev))
    (optionNibble_lt (UInt16.ofNat value.length))).2.2
  exact parseOptionsLoop_cons options hb h

/-- **The two loops meet.**  From the same running number, the decoder reads
back every option the encoder writes and goes on with what follows. -/
theorem parseOptionsLoop_encodeOptions {opts : Options} (hv : ShortValues opts) :
    ∀ (nums : List UInt16) (prev : UInt16), nums.Pairwise (· < ·) → (∀ num ∈ nums, prev ≤ num) →
      ∃ enc last, encodeOptions opts nums prev = .ok enc ∧ ∀ (rest : Bytes) (acc : Options),
        parseOptionsLoop (enc ++ rest) prev acc = parseOptionsLoop rest last
            (nums.foldl (fun o num => o.insert num (opts[num]?.getD [])) acc) := by
  intro nums
  induction nums with
  | nil => intro prev _ _; exact ⟨[], prev, rfl, fun rest acc => rfl⟩
  | cons num nums ih =>
    intro prev hs hle
    rw [List.pairwise_cons] at hs
    obtain ⟨enc, last, henc, hread⟩ := ih num hs.2 (fun m hm => UInt16.le_of_lt (hs.1 m hm))
    have hval : (opts[num]?.getD []).length ≤ 65535 := by
      cases ho : opts[num]? with
      | none => simp
      | some v => simpa using hv num v ho
    refine ⟨optionBytes (num - prev) (opts[num]?.getD []) ++ enc, last, ?_, ?_⟩
    · rw [encodeOptions, encodeOption_eq, henc]
      rfl
    · intro rest acc
      rw [List.append_assoc, parseOptionsLoop_optionBytes (hle num (by simp)) hval, hread,
        List.foldl_cons]

theorem getElem?_foldl_insert (opts : Options) :
    ∀ (nums : List UInt16) (acc : Options) (k : UInt16),
      (nums.foldl (fun o num => o.insert num (opts[num]?.getD [])) acc)[k]? =
        if k ∈ nums then some (opts[k]?.getD []) else acc[k]? := by
  intro nums
  induction nums with
  | nil => intro acc k; simp
  | cons num nums ih =>
    intro acc k
    rw [List.foldl_cons, ih]
    by_cases hk : k ∈ nums
    · simp [hk]
    by_cases he : num = k
    · subst he
      simp [hk]
    have hne : k ≠ num := fun h => he h.symm
    simp [hk, he, hne, ExtTreeMap.getElem?_insert]

/-- Inserting every entry of a map into the empty map gives the map. -/
theorem foldl_insert_keys (opts : Options) :
    (sortedOptionNums opts).foldl (fun o num => o.insert num (opts[num]?.getD [])) ∅ = opts := by
  apply ExtTreeMap.ext_getElem?
  intro k
  rw [getElem?_foldl_insert, sortedOptionNums]
  by_cases hk : k ∈ opts
  · rw [if_pos (ExtTreeMap.mem_keys.mpr hk)]
    obtain ⟨v, hv⟩ := Lib.mem_iff_getElem?.mp hk
    rw [hv]
    rfl
  rw [if_neg (fun h => hk (ExtTreeMap.mem_keys.mp h)), ExtTreeMap.getElem?_eq_none hk]
  simp

/-! ### The round trip -/

/-- Behind the options: the end of the datagram, or the marker and the payload. -/
theorem parseOptionsLoop_payload (payload : Bytes) (prev : UInt16) (options : Options) :
    parseOptionsLoop (if 0 < payload.length then 0xff :: payload else []) prev options =
      (options, payload) := by
  cases payload with
  | nil => rw [if_neg (by simp), parseOptionsLoop]
  | cons b tail => rw [if_pos (by simp), parseOptionsLoop, if_pos rfl]

theorem sortedOptionNums_pairwise (opts : Options) : (sortedOptionNums opts).Pairwise (· < ·) := by
  refine ExtTreeMap.ordered_keys.imp ?_
  intro a b h
  exact Std.compare_eq_lt.mp h

/-- The check for an empty map saves a loop over nothing. -/
theorem marshalOptions_eq (opts : Options) :
    marshalOptions opts = encodeOptions opts (sortedOptionNums opts) 0 := by
  rw [marshalOptions]
  split
  · rfl
  have hnil : sortedOptionNums opts = [] := by
    rw [← List.length_eq_zero_iff, sortedOptionNums, ExtTreeMap.length_keys]
    omega
  rw [hnil]
  rfl

/-- **The options come back.**  The encoder succeeds, and the decoder turns what
it wrote, followed by the payload part, into the same map and payload. -/
theorem parseOptions_encode (m : Message) (hv : ShortValues m.options) :
    ∃ enc, marshalOptions m.options = .ok enc ∧
      parseOptions (enc ++ if 0 < m.payload.length then 0xff :: m.payload else []) =
        (m.options, m.payload) := by
  obtain ⟨enc, last, henc, hread⟩ := parseOptionsLoop_encodeOptions hv
    (sortedOptionNums m.options) 0 (sortedOptionNums_pairwise m.options)
    (fun num _ => UInt16.zero_le)
  refine ⟨enc, ?_, ?_⟩
  · rw [marshalOptions_eq]
    exact henc
  · rw [parseOptions, hread, foldl_insert_keys, parseOptionsLoop_payload]

/-- `Marshal` succeeds when it has no reason to refuse, and what it wrote. -/
theorem marshal_eq {enc : Bytes} (ht : m.type ≤ 3) (hk : m.token.length ≤ 8)
    (henc : marshalOptions m.options = .ok enc) : m.marshal = .ok
      (((version <<< 6) ||| ((m.type &&& 0x03) <<< 4) ||| UInt8.ofNat m.token.length) :: m.code ::
        putUint16BE m.messageID ++ m.token ++ enc ++
        (if 0 < m.payload.length then 0xff :: m.payload else [])) := by
  have htr : ¬ typeRST < m.type := UInt8.not_lt.mpr ht
  rw [Message.marshal, if_neg (by omega), if_neg htr, henc]
  rfl

theorem exists_marshal (ht : m.type ≤ 3) (hk : m.token.length ≤ 8) (hv : ShortValues m.options) :
    ∃ data, m.marshal = .ok data := by
  obtain ⟨enc, henc, -⟩ := parseOptions_encode m hv
  exact ⟨_, marshal_eq ht hk henc⟩

/-- What `Marshal` has checked when it succeeds. -/
theorem checks_of_marshal {data : Bytes} (h : m.marshal = .ok data) :
    m.token.length ≤ 8 ∧ m.type ≤ 3 := by
  have hk : m.token.length ≤ 8 := by
    by_contra hk
    rw [Message.marshal, if_pos (by omega)] at h
    cases h
  refine ⟨hk, ?_⟩
  by_contra ht
  have htr : typeRST < m.type := UInt8.not_le.mp ht
  rw [Message.marshal, if_neg (by omega), if_pos htr] at h
  cases h

/-- Whatever `Marshal` wrote, `Parse` reads. -/
theorem parse_of_marshal {data : Bytes} (hv : ShortValues m.options) (h : m.marshal = .ok data) :
    parse data = .ok m := by
  obtain ⟨hk, ht⟩ := checks_of_marshal h
  obtain ⟨enc, henc, hopt⟩ := parseOptions_encode m hv
  obtain ⟨hver, htok, htyp⟩ := first_byte ht hk
  cases (marshal_eq ht hk henc).symm.trans h
  simp only [putUint16BE, List.cons_append, List.nil_append, List.append_assoc, parse]
  rw [if_neg (by rw [hver]; simp), htok, if_neg (by omega), if_neg (by simp), List.take_left,
    List.drop_left, hopt, htyp, uint16BE_putUint16BE]

/-- **`Parse` undoes `Marshal`.** -/
theorem parse_marshal (m : Message) (ht : m.type ≤ 3) (hk : m.token.length ≤ 8)
    (hv : ShortValues m.options) : ∃ data, m.marshal = .ok data ∧ parse data = .ok m := by
  obtain ⟨data, hdata⟩ := exists_marshal ht hk hv
  exact ⟨data, hdata, parse_of_marshal hv hdata⟩

/-- A message at the boundaries of both encodings: option numbers 0, 12, 281 and
65535, and values of 0, 13 and 269 bytes. -/
def boundaryMessage : Message where
  type := typeACK
  code := codeContent
  messageID := 0xabcd
  token := [1, 2, 3, 4, 5, 6, 7, 8]
  options := (((∅ : Options).insert 0 []).insert 12 (List.replicate 13 7)).insert 281
    (List.replicate 269 0xff) |>.insert 65535 [0xff]
  payload := [0xff, 0]

theorem parse_marshal_boundaryMessage :
    ∃ data, boundaryMessage.marshal = .ok data ∧ parse data = .ok boundaryMessage :=
  parse_marshal boundaryMessage (by decide) (by decide)
    ((((shortValues_empty.insert 0 (by decide)).insert 12 (by decide)).insert 281
      (by rw [List.length_replicate]; decide)).insert 65535 (by decide))

end SharkSocket.Coap
