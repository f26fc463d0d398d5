import SharkSocket.Coap.OptionGrammar

/-!
# What `Marshal` writes and what it refuses

`Marshal` checks the token and the type.  The lengths of the option values it does not
check: `encodeOption` converts each to 16 bits, and no branch of `encodeExtendedField`
fails on what `optionNibble` chose, so no option is ever refused (`exists_encodeOptions`).

For values of up to 65535 bytes nothing is lost.  The encoder then writes options of the
format, one for each entry of the map (`forms_of_encodeOptions`), and an `OptionForm`
cannot be built with a length other than that of its value.  A longer value is announced
modulo 65536 (`long_value_announced_empty`).
-/

namespace SharkSocket.Coap

open Std (ExtTreeMap)

/-! ### Options as they are written -/

theorem length_extended (v : UInt16) : (extended v).length = extendedLen (optionNibble v) := by
  rw [extended, optionNibble, extendedLen]
  by_cases h13 : v < 13
  · have hnib : v.toUInt8 < 13 := by
      have hn := UInt16.lt_iff_toNat_lt.mp h13
      change v.toNat < 13 at hn
      change v.toNat % 256 < 13
      omega
    rw [if_pos h13, if_pos h13, if_pos hnib]
    rfl
  rw [if_neg h13, if_neg h13]
  by_cases h269 : v < 269
  · rw [if_pos h269, if_pos h269]
    rfl
  rw [if_neg h269, if_neg h269]
  rfl

theorem not_cutField_optionBytes (delta : UInt16) (value rest : Bytes) :
    ¬ CutField (optionBytes delta value ++ rest) := by
  rintro ⟨-, -, hshort⟩
  obtain ⟨hd, hl, -⟩ := header_byte (optionNibble_lt delta)
    (optionNibble_lt (UInt16.ofNat value.length))
  rw [hd, hl, ← length_extended, ← length_extended] at hshort
  simp only [List.append_eq, List.length_append] at hshort
  omega

/-- What the encoder writes for a short value is an option of the format. -/
theorem form_of_optionBytes {prev num : UInt16} (hle : prev ≤ num) {value : Bytes}
    (hv : value.length ≤ 65535) :
    ∃ o : OptionForm, o.bytes = optionBytes (num - prev) value ∧ o.content = value ∧
      prev.toNat + o.delta.value = num.toNat := by
  have hparse := parseOption_optionBytes hle hv []
  have hprev : prev.toNat ≤ 65535 := Nat.le_of_lt_succ prev.toNat_lt
  rw [← @UInt16.ofNat_toNat prev] at hparse
  obtain ⟨o, hbytes, hfits⟩ := option_of_parseOption hprev (not_cutField_optionBytes _ _ _) hparse
  rw [hbytes, parseOption_bytes o [] hfits] at hparse
  simp only [Option.some.injEq, Prod.mk.injEq] at hparse
  obtain ⟨hnum, hcontent, -⟩ := hparse
  refine ⟨o, ?_, hcontent, ?_⟩
  · rw [List.append_nil, List.append_nil, UInt16.ofNat_toNat] at hbytes
    exact hbytes.symm
  · rw [← hnum, UInt16.toNat_ofNat']
    omega

/-- The encoder has no option it refuses. -/
theorem exists_encodeOptions (opts : Options) : ∀ (nums : List UInt16) (prev : UInt16),
    ∃ enc, encodeOptions opts nums prev = .ok enc := by
  intro nums
  induction nums with
  | nil => intro prev; exact ⟨[], rfl⟩
  | cons num nums ih =>
    intro prev
    obtain ⟨enc, henc⟩ := ih num
    refine ⟨optionBytes (num - prev) (opts[num]?.getD []) ++ enc, ?_⟩
    rw [encodeOptions, encodeOption_eq, henc]
    rfl

/-! ### Messages -/

/-- `Marshal` looks at the token and the type only. -/
theorem marshal_error_iff (m : Message) :
    (∃ e, m.marshal = .error e) ↔ 8 < m.token.length ∨ 3 < m.type := by
  constructor
  · rintro ⟨e, he⟩
    by_contra hgood
    rw [not_or, Nat.not_lt, UInt8.not_lt] at hgood
    obtain ⟨enc, henc⟩ := exists_encodeOptions m.options (sortedOptionNums m.options) 0
    rw [← marshalOptions_eq] at henc
    rw [marshal_eq hgood.2 hgood.1 henc] at he
    cases he
  · intro hbad
    by_cases hk : 8 < m.token.length
    · exact ⟨errTokenTooLong, if_pos hk⟩
    have ht : typeRST < m.type := hbad.resolve_left hk
    rw [Message.marshal, if_neg hk, if_pos ht]
    exact ⟨_, rfl⟩

/-- The options of a map are written as a sequence of the format, in the order of their
numbers. -/
theorem forms_of_encodeOptions {opts : Options} (hv : ShortValues opts) :
    ∀ (nums : List UInt16) (prev : UInt16) (enc : Bytes), nums.Pairwise (· < ·) →
      (∀ num ∈ nums, prev ≤ num) → encodeOptions opts nums prev = .ok enc →
      ∃ os : List OptionForm, enc = os.flatMap OptionForm.bytes ∧ Numbered prev.toNat os ∧
        entries prev.toNat os = nums.map fun num => (num.toNat, opts[num]?.getD []) := by
  intro nums
  induction nums with
  | nil =>
    intro prev enc _ _ henc
    cases henc
    exact ⟨[], rfl, trivial, rfl⟩
  | cons num nums ih =>
    intro prev enc hs hle henc
    rw [List.pairwise_cons] at hs
    obtain ⟨tail, htail⟩ := exists_encodeOptions opts nums num
    have hval : (opts[num]?.getD []).length ≤ 65535 := by
      cases ho : opts[num]? with
      | none => exact Nat.zero_le _
      | some v => exact hv num v ho
    obtain ⟨o, hbytes, hcontent, hnum⟩ := form_of_optionBytes (hle num List.mem_cons_self) hval
    obtain ⟨os, hos, hnumbered, hentries⟩ :=
      ih num tail hs.2 (fun k hk => UInt16.le_of_lt (hs.1 k hk)) htail
    rw [encodeOptions, encodeOption_eq, htail] at henc
    have henc' : enc = optionBytes (num - prev) (opts[num]?.getD []) ++ tail :=
      (Except.ok.inj henc).symm
    refine ⟨o :: os, ?_, ⟨?_, ?_⟩, ?_⟩
    · rw [henc', hos, List.flatMap_cons, hbytes]
    · rw [hnum]
      exact Nat.le_of_lt_succ num.toNat_lt
    · rw [hnum]
      exact hnumbered
    · rw [entries, hnum, hcontent, hentries, List.map_cons]

/-- The datagram of a message: behind the token a sequence of options with the numbers and
the values of the map, each announcing the length of its value. -/
def Written (m : Message) (data : Bytes) : Prop :=
  ∃ os : List OptionForm, Numbered 0 os ∧
    entries 0 os = (sortedOptionNums m.options).map
      (fun num => (num.toNat, m.options[num]?.getD [])) ∧
    data = ((version <<< 6) ||| ((m.type &&& 0x03) <<< 4) ||| UInt8.ofNat m.token.length) ::
      m.code :: putUint16BE m.messageID ++ m.token ++ os.flatMap OptionForm.bytes ++
      (if 0 < m.payload.length then 0xff :: m.payload else [])

theorem written_of_marshal {m : Message} {data : Bytes} (hv : ShortValues m.options)
    (h : m.marshal = .ok data) : Written m data := by
  obtain ⟨hk, ht⟩ := checks_of_marshal h
  obtain ⟨enc, henc⟩ := exists_encodeOptions m.options (sortedOptionNums m.options) 0
  obtain ⟨os, hos, hnumbered, hentries⟩ := forms_of_encodeOptions hv _ 0 enc
    (sortedOptionNums_pairwise m.options) (fun num _ => UInt16.zero_le) henc
  refine ⟨os, hnumbered, hentries, ?_⟩
  rw [← marshalOptions_eq] at henc
  rw [← hos]
  exact Except.ok.inj (h.symm.trans (marshal_eq ht hk henc))

/-- **What `Marshal` refuses.**  If a message with a good token and type has no value over
65535 bytes, `Marshal` fails exactly on what cannot be encoded, and what it returns
announces the length of every value. -/
theorem marshal_refuses (m : Message)
    (hv : m.token.length ≤ 8 → m.type ≤ 3 → ShortValues m.options) :
    ((∃ e, m.marshal = .error e) ↔ 8 < m.token.length ∨ 3 < m.type ∨
      ∃ (num : UInt16) (v : Bytes), m.options[num]? = some v ∧ 65535 < v.length) ∧
    ∀ data, m.marshal = .ok data → Written m data := by
  constructor
  · rw [marshal_error_iff]
    constructor
    · rintro (hk | ht)
      · exact .inl hk
      · exact .inr (.inl ht)
    · rintro (hk | ht | ⟨num, v, hget, hlong⟩)
      · exact .inl hk
      · exact .inr ht
      · by_contra hgood
        rw [not_or, Nat.not_lt, UInt8.not_lt] at hgood
        have hshort := hv hgood.1 hgood.2 num v hget
        omega
  · intro data h
    obtain ⟨hk, ht⟩ := checks_of_marshal h
    exact written_of_marshal (hv hk ht) h

theorem marshal_refuses_boundaryMessage :
    ∃ data, boundaryMessage.marshal = .ok data ∧ Written boundaryMessage data := by
  have hv : ShortValues boundaryMessage.options :=
    (((shortValues_empty.insert 0 (by decide)).insert 12 (by decide)).insert 281
      (by rw [List.length_replicate]; decide)).insert 65535 (by decide)
  obtain ⟨data, hdata⟩ : ∃ data, boundaryMessage.marshal = .ok data :=
    exists_marshal (by decide) (by decide) hv
  exact ⟨data, hdata, (marshal_refuses boundaryMessage (fun _ _ => hv)).2 data hdata⟩

/-- Option 1 with a value one byte too long for the length field. -/
def longValue (v : Bytes) : Message where
  type := typeCON
  code := codeGet
  messageID := 0
  token := []
  options := (∅ : Options).insert 1 v
  payload := []

theorem sortedOptionNums_single (v : Bytes) :
    sortedOptionNums ((∅ : Options).insert 1 v) = [1] := rfl

/-- A value of 65536 bytes is not refused, and announced as empty: the option's header byte
is `0x10`. -/
theorem long_value_announced_empty :
    ∃ v : Bytes, 65535 < v.length ∧ (longValue v).options[(1 : UInt16)]? = some v ∧
      (longValue v).marshal = .ok (0x40 :: 0x01 :: 0 :: 0 :: 0x10 :: v) := by
  refine ⟨List.replicate 65536 0, ?_, ?_, ?_⟩
  · rw [List.length_replicate]
    decide
  · exact ExtTreeMap.getElem?_insert_self
  · generalize hv : List.replicate 65536 (0 : UInt8) = v
    have hlen : v.length = 65536 := by rw [← hv, List.length_replicate]
    have henc : marshalOptions (longValue v).options = .ok (0x10 :: v) := by
      have hget : ((∅ : Options).insert 1 v)[(1 : UInt16)]? = some v :=
        ExtTreeMap.getElem?_insert_self
      have hbytes : optionBytes (1 - 0) v = 0x10 :: v := by
        rw [optionBytes, hlen]
        rfl
      show marshalOptions ((∅ : Options).insert 1 v) = _
      rw [marshalOptions, sortedOptionNums_single, encodeOptions, encodeOption_eq,
        hget, Option.getD_some, hbytes]
      show Except.ok ((0x10 :: v) ++ []) = _
      rw [List.append_nil]
    have ht : (longValue v).type ≤ 3 := (by decide : typeCON ≤ 3)
    rw [marshal_eq ht (Nat.zero_le 8) henc]
    show Except.ok (((version <<< 6) ||| ((typeCON &&& 0x03) <<< 4) ||| UInt8.ofNat 0) ::
      codeGet :: putUint16BE 0 ++ [] ++ 0x10 :: v ++ []) = _
    rw [List.append_nil]
    rfl

end SharkSocket.Coap
