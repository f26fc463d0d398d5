import SharkSocket.Coap.RoundTrip

/-!
# The option format and what the decoder makes of malformed input

An `OptionForm` is one option as RFC 7252 writes it: a byte with two nibbles, the
extended delta, the extended length, and the value.  A list of them is a sequence of
options if the numbers stay within 16 bits (`Numbered`).

The decoder is compared with the longest sequence at the front of the input
(`Longest`).  It stores the options of that sequence and nothing else, unless the next
option is cut in an extended field: `readOptionExtended` then reports zero, and if the
option fits with a delta or a length of zero it is stored (`Misread`).

* `parseOption_eq`: the decoder on a header, with zero for a cut field (`zeroed`);
* `stuck_iff_none`: without a cut field it stops exactly where no option follows;
* `none_iff_not_misread`: with one it stops exactly if the option does not fit;
* `parseOptions_longest`: the options and the payload it returns;
* `cut_delta_overwrites`: a cut delta empties the option before it.
-/

namespace SharkSocket.Coap

open Std (ExtTreeMap)

/-! ### The format -/

/-- A delta or a length: in the nibble, in one more byte, or in two more. -/
inductive OptionField
  | small (n : Fin 13)
  | byte (b : UInt8)
  | word (hi lo : UInt8)
  deriving DecidableEq, Repr

namespace OptionField

def nibble : OptionField → UInt8
  | small n => UInt8.ofNat n
  | byte _ => 13
  | word _ _ => 14

def value : OptionField → Nat
  | small n => n
  | byte b => 13 + b.toNat
  | word hi lo => 269 + (256 * hi.toNat + lo.toNat)

def bytes : OptionField → Bytes
  | small _ => []
  | byte b => [b]
  | word hi lo => [hi, lo]

end OptionField

/-- An option whose length field is the length of its value. -/
structure OptionForm where
  delta : OptionField
  length : OptionField
  content : Bytes
  fits : content.length = length.value

namespace OptionForm

def header (d l : OptionField) : UInt8 := (d.nibble <<< 4) ||| l.nibble

def bytes (o : OptionForm) : Bytes :=
  header o.delta o.length :: (o.delta.bytes ++ (o.length.bytes ++ o.content))

end OptionForm

/-- The numbers of a sequence of options after number `n` stay within 16 bits. -/
def Numbered : Nat → List OptionForm → Prop
  | _, [] => True
  | n, o :: os => n + o.delta.value ≤ 65535 ∧ Numbered (n + o.delta.value) os

/-- The number of the last option of a sequence. -/
def lastNumber : Nat → List OptionForm → Nat
  | n, [] => n
  | n, o :: os => lastNumber (n + o.delta.value) os

/-- Numbers and values, in the order of the sequence. -/
def entries : Nat → List OptionForm → List (Nat × Bytes)
  | _, [] => []
  | n, o :: os => (n + o.delta.value, o.content) :: entries (n + o.delta.value) os

/-- The last value under a number. -/
def lastValue (num : Nat) (es : List (Nat × Bytes)) : Option Bytes := es.reverse.lookup num

/-- No option that keeps the numbers within 16 bits starts here. -/
def Stuck (n : Nat) (rest : Bytes) : Prop :=
  ∀ (o : OptionForm) (rest' : Bytes), rest = o.bytes ++ rest' → 65535 < n + o.delta.value

/-- `os` is the longest sequence of options at the front of the input. -/
structure Longest (data : Bytes) (os : List OptionForm) (rest : Bytes) : Prop where
  split : data = os.flatMap OptionForm.bytes ++ rest
  numbered : Numbered 0 os
  longest : ∀ (os' : List OptionForm) (rest' : Bytes),
    data = os'.flatMap OptionForm.bytes ++ rest' → Numbered 0 os' → os' <+: os

/-- The bytes an extended field takes. -/
def extendedLen (nibble : UInt8) : Nat := if nibble < 13 then 0 else if nibble = 13 then 1 else 2

/-- The input ends inside an extended delta or length. -/
def CutField : Bytes → Prop
  | [] => False
  | b :: tail => b >>> 4 ≤ 14 ∧ b &&& 0x0f ≤ 14 ∧
    tail.length < extendedLen (b >>> 4) + extendedLen (b &&& 0x0f)

instance : (rest : Bytes) → Decidable (CutField rest)
  | [] => .isFalse id
  | _ :: _ => inferInstanceAs (Decidable (_ ∧ _ ∧ _))

/-- A field as the decoder reads it, and the bytes behind it: one that is cut counts as zero
and takes no bytes. -/
def zeroed (nibble : UInt8) (data : Bytes) : Nat × Bytes :=
  if nibble < 13 then (nibble.toNat, data)
  else if nibble = 13 then
    match data with
    | b :: rest => (13 + b.toNat, rest)
    | [] => (0, data)
  else
    match data with
    | hi :: lo :: rest => (269 + (256 * hi.toNat + lo.toNat), rest)
    | _ => (0, data)

/-- The input ends inside an extended field, and with zero for what is cut the number and
the length still fit. -/
def Misread (n : Nat) : Bytes → Prop
  | [] => False
  | b :: tail => CutField (b :: tail) ∧ n + (zeroed (b >>> 4) tail).1 ≤ 65535 ∧
    (zeroed (b &&& 0x0f) (zeroed (b >>> 4) tail).2).1 ≤
      (zeroed (b &&& 0x0f) (zeroed (b >>> 4) tail).2).2.length

/-- What the decoder takes from the bytes behind a sequence that ends with number `n`. -/
def taken (n : Nat) (rest : Bytes) : Options := (parseOptionsLoop rest (UInt16.ofNat n) ∅).1

/-- What follows a payload marker. -/
def payloadAfter : Bytes → Bytes
  | [] => []
  | b :: tail => if b = 0xff then tail else []

/-! ### Fields -/

theorem nibble_lt (f : OptionField) : f.nibble < 15 := by
  cases f with
  | small n =>
    show n.val % 256 < 15
    omega
  | byte b => exact (by decide : 13 < 15)
  | word hi lo => exact (by decide : 14 < 15)

theorem toNat_uint16BE (hi lo : UInt8) : (uint16BE hi lo).toNat = 256 * hi.toNat + lo.toNat := by
  have hh := hi.toNat_lt
  have hl : lo.toNat < 2 ^ 8 := lo.toNat_lt
  rw [uint16BE, UInt16.toNat_or, UInt8.toNat_toUInt16, UInt16.toNat_shiftLeft, UInt8.toNat_toUInt16]
  simp only [UInt16.reduceToNat, Nat.reduceMod, Nat.shiftLeft_eq]
  have hshift : hi.toNat * 2 ^ 8 % 2 ^ 16 = 2 ^ 8 * hi.toNat := by omega
  rw [hshift, Nat.or_comm, ← Nat.two_pow_add_eq_or_of_lt hl]

theorem zeroed_lt (nibble : UInt8) (data : Bytes) : (zeroed nibble data).1 < 2 ^ 32 := by
  have hnibble := nibble.toNat_lt
  unfold zeroed
  split
  · omega
  split
  · split
    · rename_i b rest
      have hb := b.toNat_lt
      omega
    · exact Nat.zero_lt_succ _
  split
  · rename_i hi lo rest
    have hh := hi.toNat_lt
    have hl := lo.toNat_lt
    omega
  · exact Nat.zero_lt_succ _

theorem eq_of_le_14 {nibble : UInt8} (hle : nibble ≤ 14) (hsmall : ¬ nibble < 13)
    (hbyte : nibble ≠ 13) : nibble = 14 := by
  rw [UInt8.lt_iff_toNat_lt] at hsmall
  rw [UInt8.le_iff_toNat_le] at hle
  rw [Ne, ← UInt8.toNat_inj] at hbyte
  rw [← UInt8.toNat_inj]
  simp only [UInt8.reduceToNat] at *
  omega

/-- **A field is read as it is, or as zero if it is cut.** -/
theorem readOptionExtended_eq {nibble : UInt8} (hle : nibble ≤ 14) (data : Bytes) :
    ∃ k, readOptionExtended data nibble.toUInt32 = (UInt32.ofNat (zeroed nibble data).1, k) ∧
      data.drop k = (zeroed nibble data).2 := by
  unfold zeroed
  by_cases hsmall : nibble < 13
  · have hsmall' : nibble.toUInt32 < 13 := UInt8.lt_iff_toNat_lt.mp hsmall
    rw [if_pos hsmall, readOptionExtended.eq_def, if_pos hsmall']
    refine ⟨0, ?_, rfl⟩
    rw [← UInt8.toNat_toUInt32, UInt32.ofNat_toNat]
  rw [if_neg hsmall]
  by_cases hbyte : nibble = 13
  · rw [if_pos hbyte, hbyte]
    cases data with
    | nil => exact ⟨0, rfl, rfl⟩
    | cons b rest =>
      refine ⟨1, ?_, rfl⟩
      show (b.toUInt32 + 13, 1) = (UInt32.ofNat (13 + b.toNat), 1)
      congr 1
      apply UInt32.toNat_inj.mp
      rw [UInt32.toNat_add, UInt32.toNat_ofNat', Nat.add_comm 13]
      rfl
  rw [if_neg hbyte, eq_of_le_14 hle hsmall hbyte]
  match data with
  | [] | [_] => exact ⟨0, rfl, rfl⟩
  | hi :: lo :: rest =>
    refine ⟨2, ?_, rfl⟩
    show ((uint16BE hi lo).toUInt32 + 269, 2) =
      (UInt32.ofNat (269 + (256 * hi.toNat + lo.toNat)), 2)
    congr 1
    apply UInt32.toNat_inj.mp
    rw [UInt32.toNat_add, UInt16.toNat_toUInt32, toNat_uint16BE, UInt32.toNat_ofNat',
      Nat.add_comm 269]
    rfl

theorem zeroed_bytes (f : OptionField) (rest : Bytes) :
    zeroed f.nibble (f.bytes ++ rest) = (f.value, rest) := by
  cases f with
  | small n =>
    have hnat : (UInt8.ofNat n).toNat = n := by
      rw [UInt8.toNat_ofNat']
      omega
    have hlt : UInt8.ofNat n < 13 := by
      rw [UInt8.lt_iff_toNat_lt, hnat]
      exact n.isLt
    show zeroed (UInt8.ofNat n) rest = (n.val, rest)
    rw [zeroed.eq_def, if_pos hlt, hnat]
  | byte b | word hi lo => rfl

/-- A field that is cut takes no bytes. -/
theorem length_zeroed (nibble : UInt8) (data : Bytes) : (zeroed nibble data).2.length =
    if data.length < extendedLen nibble then data.length else data.length - extendedLen nibble := by
  unfold zeroed extendedLen
  split
  · rfl
  split
  · split <;> simp
  split
  · simp
  · rename_i hshort
    match data with
    | [] | [_] => rfl
    | hi :: lo :: rest => exact absurd rfl (hshort hi lo rest)

/-- A nibble and enough bytes make a field. -/
theorem exists_field {nibble : UInt8} (hnib : nibble ≤ 14) (data : Bytes)
    (hlen : extendedLen nibble ≤ data.length) :
    ∃ (f : OptionField) (rest : Bytes), f.nibble = nibble ∧ f.bytes.length = extendedLen nibble ∧
      data = f.bytes ++ rest := by
  unfold extendedLen at hlen ⊢
  by_cases hsmall : nibble < 13
  · have hlt : nibble.toNat < 13 := UInt8.lt_iff_toNat_lt.mp hsmall
    rw [if_pos hsmall]
    exact ⟨.small ⟨nibble.toNat, hlt⟩, data, UInt8.ofNat_toNat, rfl, rfl⟩
  rw [if_neg hsmall] at hlen ⊢
  by_cases hbyte : nibble = 13
  · rw [if_pos hbyte] at hlen ⊢
    cases data with
    | nil => exact absurd hlen (by decide)
    | cons b rest => exact ⟨.byte b, rest, hbyte.symm, rfl, rfl⟩
  rw [if_neg hbyte] at hlen ⊢
  have hword := eq_of_le_14 hnib hsmall hbyte
  match data with
  | [] => exact absurd hlen (by decide)
  | [_] => exact absurd hlen (Nat.not_succ_le_self 1)
  | hi :: lo :: rest => exact ⟨.word hi lo, rest, hword.symm, rfl, rfl⟩

/-- A field is determined by its value: the three kinds have values below 13, from there to
268, and above. -/
theorem value_injective : ∀ f g : OptionField, f.value = g.value → f = g
  | .small n, .small m, h => congrArg OptionField.small (Fin.ext h)
  | .byte b, .byte c, h => congrArg OptionField.byte (UInt8.toNat_inj.mp (Nat.add_left_cancel h))
  | .word hi lo, .word hi' lo', h => by
    have hl := lo.toNat_lt
    have hl' := lo'.toNat_lt
    simp only [OptionField.value] at h
    have hhi : hi = hi' := UInt8.toNat_inj.mp (by omega)
    have hlo : lo = lo' := UInt8.toNat_inj.mp (by omega)
    rw [hhi, hlo]
  | .small n, .byte b, h | .byte b, .small n, h => by
    simp only [OptionField.value] at h
    omega
  | .small n, .word hi lo, h | .word hi lo, .small n, h => by
    simp only [OptionField.value] at h
    omega
  | .byte b, .word hi lo, h | .word hi lo, .byte b, h => by
    have hb := b.toNat_lt
    simp only [OptionField.value] at h
    omega

/-! ### One option -/

variable {n : Nat} {rest : Bytes}

/-- **The decoder on a header without the reserved nibble.** -/
theorem parseOption_eq {b : UInt8} {tail : Bytes} (hn : n ≤ 65535) (hd : b >>> 4 ≤ 14)
    (hl : b &&& 0x0f ≤ 14) {d l : Nat} {t t' : Bytes} (hdelta : zeroed (b >>> 4) tail = (d, t))
    (hlength : zeroed (b &&& 0x0f) t = (l, t')) :
    parseOption (b :: tail) (UInt16.ofNat n) =
      if 65535 < n + d then none else if t'.length < l then none
      else some (UInt16.ofNat (n + d), t'.take l, t'.drop l) := by
  obtain ⟨k, hk, hdrop⟩ := readOptionExtended_eq hd tail
  obtain ⟨k', hk', hdrop'⟩ := readOptionExtended_eq hl t
  have hdlt := zeroed_lt (b >>> 4) tail
  have hllt := zeroed_lt (b &&& 0x0f) t
  rw [hdelta] at hk hdrop hdlt
  rw [hlength] at hk' hdrop' hllt
  have hdv : (UInt32.ofNat d).toNat = d := UInt32.toNat_ofNat_of_lt' hdlt
  have hlv : (UInt32.ofNat l).toNat = l := UInt32.toNat_ofNat_of_lt' hllt
  have hprev : (UInt16.ofNat n).toUInt32.toNat = n := by
    rw [UInt16.toNat_toUInt32, UInt16.toNat_ofNat']
    omega
  have hover : 65535 - (UInt16.ofNat n).toUInt32 < UInt32.ofNat d ↔ 65535 < n + d := by
    rw [UInt32.lt_iff_toNat_lt, UInt32.toNat_sub_of_le _ _ (by
      rw [UInt32.le_iff_toNat_le, hprev]
      exact hn), hprev, hdv]
    change 65535 - n < d ↔ _
    omega
  have hguard : ¬ ((14 : UInt32) < (b >>> 4).toUInt32 ∨ 14 < (b &&& 0x0f).toUInt32) := by
    rintro (h | h)
    · exact absurd (UInt8.le_iff_toNat_le.mp hd) (not_le.mpr (UInt32.lt_iff_toNat_lt.mp h))
    · exact absurd (UInt8.le_iff_toNat_le.mp hl) (not_le.mpr (UInt32.lt_iff_toNat_lt.mp h))
  simp only [parseOption, decodeOptionHeader, one_ne_zero, if_false, List.drop_succ_cons,
    List.drop_zero]
  rw [if_neg hguard]
  simp only [hk, hdrop, hk', hdrop', hlv, hover]
  split
  · rfl
  rename_i hfits
  have hnum : UInt16.ofNat n + (UInt32.ofNat d).toUInt16 = UInt16.ofNat (n + d) := by
    apply UInt16.toNat_inj.mp
    rw [UInt16.toNat_add, UInt32.toNat_toUInt16, UInt16.toNat_ofNat', UInt16.toNat_ofNat']
    omega
  rw [hnum]

/-- A header with two complete fields. -/
theorem parseOption_form (d l : OptionField) (tail : Bytes) (hn : n ≤ 65535) :
    parseOption (OptionForm.header d l :: (d.bytes ++ (l.bytes ++ tail))) (UInt16.ofNat n) =
      if 65535 < n + d.value then none else if tail.length < l.value then none
      else some (UInt16.ofNat (n + d.value), tail.take l.value, tail.drop l.value) := by
  obtain ⟨hhi, hlo, -⟩ := header_byte (nibble_lt d) (nibble_lt l)
  have hle : ∀ f : OptionField, f.nibble ≤ 14 := fun f => Nat.le_of_lt_succ (nibble_lt f)
  rw [← OptionForm.header] at hhi hlo
  refine parseOption_eq hn (hhi ▸ hle d) (hlo ▸ hle l) (t := l.bytes ++ tail) ?_ ?_
  · rw [hhi, zeroed_bytes]
  · rw [hlo, zeroed_bytes]

/-- An option of the format is read back, with what follows it. -/
theorem parseOption_bytes (o : OptionForm) (rest : Bytes) (hn : n + o.delta.value ≤ 65535) :
    parseOption (o.bytes ++ rest) (UInt16.ofNat n) =
      some (UInt16.ofNat (n + o.delta.value), o.content, rest) := by
  have hform := parseOption_form o.delta o.length (o.content ++ rest) (n := n) (by omega)
  have hbytes : o.bytes ++ rest = OptionForm.header o.delta o.length ::
      (o.delta.bytes ++ (o.length.bytes ++ (o.content ++ rest))) := by
    simp [OptionForm.bytes]
  rw [hbytes, hform, if_neg (by omega), if_neg (by rw [List.length_append, o.fits]; omega),
    ← o.fits, List.take_left, List.drop_left]

theorem nibbles_table : ∀ i : Fin 256,
    ((UInt8.ofNat i >>> 4) <<< 4) ||| (UInt8.ofNat i &&& 0x0f) = UInt8.ofNat i := by
  decide +kernel

theorem header_nibbles (b : UInt8) : ((b >>> 4) <<< 4) ||| (b &&& 0x0f) = b := by
  have h := nibbles_table ⟨b.toNat, b.toNat_lt⟩
  simpa using h

/-- The decoder stops at the reserved nibble. -/
theorem parseOption_reserved {b : UInt8} {tail : Bytes} {prevNum : UInt16}
    (h : (14 : UInt32) < (b >>> 4).toUInt32 ∨ (14 : UInt32) < (b &&& 0x0f).toUInt32) :
    parseOption (b :: tail) prevNum = none := by
  unfold parseOption
  show (if 1 = 0 then none else if _ then none else _) = none
  rw [if_neg one_ne_zero]
  exact if_pos h

/-- What the decoder takes for an option is one, unless a field is cut. -/
theorem option_of_parseOption {data val : Bytes} {num : UInt16} (hn : n ≤ 65535)
    (hcut : ¬ CutField data) (h : parseOption data (UInt16.ofNat n) = some (num, val, rest)) :
    ∃ o : OptionForm, data = o.bytes ++ rest ∧ n + o.delta.value ≤ 65535 := by
  cases data with
  | nil => simp [parseOption, decodeOptionHeader] at h
  | cons b tail =>
    -- neither nibble is reserved
    have hnib : b >>> 4 ≤ 14 ∧ b &&& 0x0f ≤ 14 := by
      by_contra hbad
      have hguard : (14 : UInt32) < (b >>> 4).toUInt32 ∨ 14 < (b &&& 0x0f).toUInt32 := by
        rw [not_and_or, UInt8.not_le, UInt8.not_le] at hbad
        rcases hbad with hbad | hbad
        · left
          exact UInt8.lt_iff_toNat_lt.mp hbad
        right
        exact UInt8.lt_iff_toNat_lt.mp hbad
      rw [parseOption_reserved hguard] at h
      cases h
    have hroom : extendedLen (b >>> 4) + extendedLen (b &&& 0x0f) ≤ tail.length := by
      by_contra hshort
      exact hcut ⟨hnib.1, hnib.2, Nat.lt_of_not_le hshort⟩
    obtain ⟨d, t1, hd, hdlen, rfl⟩ := exists_field hnib.1 tail (by omega)
    rw [List.length_append] at hroom
    obtain ⟨l, t2, hl, -, rfl⟩ := exists_field hnib.2 t1 (by omega)
    have hb : b = OptionForm.header d l := by rw [OptionForm.header, hd, hl, header_nibbles]
    rw [hb, parseOption_form d l t2 hn] at h
    split at h
    · cases h
    rename_i hnum
    split at h
    · cases h
    rename_i hlen
    cases h
    have hfits : (t2.take l.value).length = l.value :=
      List.length_take_of_le (Nat.le_of_not_lt hlen)
    refine ⟨⟨d, l, t2.take l.value, hfits⟩, ?_, Nat.le_of_not_lt hnum⟩
    rw [hb]
    simp [OptionForm.bytes]

/-- **Without a cut field the decoder stops exactly where no option follows.** -/
theorem stuck_iff_none (hn : n ≤ 65535) (hcut : ¬ CutField rest) :
    Stuck n rest ↔ parseOption rest (UInt16.ofNat n) = none := by
  constructor
  · intro hstuck
    cases hparse : parseOption rest (UInt16.ofNat n) with
    | none => rfl
    | some result =>
      obtain ⟨num, val, left⟩ := result
      obtain ⟨o, hbytes, hnum⟩ := option_of_parseOption hn hcut hparse
      have hover := hstuck o left hbytes
      omega
  · intro hnone o rest' hbytes
    by_contra hfits
    rw [hbytes, parseOption_bytes o rest' (Nat.le_of_not_lt hfits)] at hnone
    cases hnone

/-- **Where no option follows, the decoder stops unless it misreads a cut field.** -/
theorem none_iff_not_misread (hn : n ≤ 65535) (hstuck : Stuck n rest) :
    parseOption rest (UInt16.ofNat n) = none ↔ ¬ Misread n rest := by
  by_cases hcut : CutField rest
  · cases rest with
    | nil => exact hcut.elim
    | cons b tail =>
      rcases hdelta : zeroed (b >>> 4) tail with ⟨d, t⟩
      rcases hlength : zeroed (b &&& 0x0f) t with ⟨l, t'⟩
      have hmisread : Misread n (b :: tail) ↔ n + d ≤ 65535 ∧ l ≤ t'.length := by
        simp only [Misread, hcut, hdelta, hlength, true_and]
      rw [parseOption_eq hn hcut.1 hcut.2.1 hdelta hlength, hmisread]
      split_ifs with hnum hlen
      · exact iff_of_true rfl (by omega)
      · exact iff_of_true rfl (by omega)
      · exact iff_of_false (by simp) (by omega)
  · refine iff_of_true ((stuck_iff_none hn hcut).mp hstuck) ?_
    cases rest with
    | nil => exact id
    | cons b tail => exact fun h => hcut h.1

/-- Behind a cut field at most one byte is left. -/
theorem length_of_misread {val left : Bytes} {num : UInt16} (hn : n ≤ 65535) (hcut : CutField rest)
    (h : parseOption rest (UInt16.ofNat n) = some (num, val, left)) : left.length ≤ 1 := by
  cases rest with
  | nil => exact hcut.elim
  | cons b tail =>
    rcases hdelta : zeroed (b >>> 4) tail with ⟨d, t⟩
    rcases hlength : zeroed (b &&& 0x0f) t with ⟨l, t'⟩
    rw [parseOption_eq hn hcut.1 hcut.2.1 hdelta hlength] at h
    split_ifs at h
    cases h
    have ht := length_zeroed (b >>> 4) tail
    have ht' := length_zeroed (b &&& 0x0f) t
    rw [hdelta] at ht
    rw [hlength] at ht'
    dsimp only at ht ht'
    have hle : ∀ nibble, extendedLen nibble ≤ 2 := by
      intro nibble
      unfold extendedLen
      split_ifs <;> omega
    have hd := hle (b >>> 4)
    have hl := hle (b &&& 0x0f)
    have hshort := hcut.2.2
    rw [List.length_drop]
    split_ifs at ht ht' <;> omega

/-- Options that start alike are alike. -/
theorem bytes_inj {o o' : OptionForm} {rest' : Bytes} (h : o.bytes ++ rest = o'.bytes ++ rest')
    (hn : n + o.delta.value ≤ 65535) (hn' : n + o'.delta.value ≤ 65535) :
    o = o' ∧ rest = rest' := by
  have hparse := parseOption_bytes o rest hn
  rw [h, parseOption_bytes o' rest' hn'] at hparse
  simp only [Option.some.injEq, Prod.mk.injEq] at hparse
  obtain ⟨hnum, hcontent, hrest⟩ := hparse
  have hdelta : o'.delta = o.delta := by
    apply value_injective
    have hto := congrArg UInt16.toNat hnum
    rw [UInt16.toNat_ofNat', UInt16.toNat_ofNat'] at hto
    omega
  obtain ⟨d, l, content, fits⟩ := o
  obtain ⟨d', l', content', fits'⟩ := o'
  have hlength : l = l' := by
    apply value_injective
    rw [← fits, ← fits']
    exact congrArg List.length hcontent.symm
  subst hdelta hlength hcontent
  exact ⟨rfl, hrest.symm⟩

/-! ### The longest sequence -/

theorem numbered_concat : ∀ (os : List OptionForm) (n : Nat) (o : OptionForm),
    Numbered n (os ++ [o]) ↔ Numbered n os ∧ lastNumber n os + o.delta.value ≤ 65535 := by
  intro os
  induction os with
  | nil => intro n o; simp [Numbered, lastNumber]
  | cons first os ih =>
    intro n o
    show _ ∧ Numbered _ (os ++ [o]) ↔ (_ ∧ Numbered _ os) ∧ _
    rw [ih, lastNumber, and_assoc]

theorem lastNumber_le : ∀ (os : List OptionForm) (n : Nat), n ≤ 65535 → Numbered n os →
    lastNumber n os ≤ 65535 := by
  intro os
  induction os with
  | nil => intro n hn _; exact hn
  | cons o os ih => intro n _ h; exact ih _ h.1 h.2

/-- Any other sequence at the front of the input is the beginning of one that cannot be
continued. -/
theorem prefix_of_stuck : ∀ (os os' : List OptionForm) (n : Nat) (rest rest' : Bytes),
    os.flatMap OptionForm.bytes ++ rest = os'.flatMap OptionForm.bytes ++ rest' →
    Numbered n os → Numbered n os' → Stuck (lastNumber n os) rest → os' <+: os := by
  intro os
  induction os with
  | nil =>
    intro os' n rest rest' heq _ hnum' hstuck
    cases os' with
    | nil => exact List.prefix_rfl
    | cons o' os' =>
      rw [List.flatMap_cons, List.append_assoc, List.flatMap_nil] at heq
      have hover : 65535 < n + o'.delta.value := hstuck o' _ heq
      exact absurd hnum'.1 (by omega)
  | cons o os ih =>
    intro os' n rest rest' heq hnum hnum' hstuck
    cases os' with
    | nil => exact List.nil_prefix
    | cons o' os' =>
      rw [List.flatMap_cons, List.append_assoc, List.flatMap_cons, List.append_assoc] at heq
      obtain ⟨rfl, htail⟩ := bytes_inj heq hnum.1 hnum'.1
      rw [List.prefix_cons_inj]
      exact ih os' _ rest rest' htail hnum.2 hnum'.2 hstuck

theorem longest_of_stuck {os : List OptionForm} (hnum : Numbered 0 os)
    (hstuck : Stuck (lastNumber 0 os) rest) :
    Longest (os.flatMap OptionForm.bytes ++ rest) os rest where
  split := rfl
  numbered := hnum
  longest os' rest' heq hnum' := prefix_of_stuck os os' 0 rest rest' heq hnum hnum' hstuck

/-- What follows the longest sequence does not continue it. -/
theorem Longest.stuck {data : Bytes} {os : List OptionForm} (h : Longest data os rest) :
    Stuck (lastNumber 0 os) rest := by
  intro o rest' hbytes
  by_contra hfits
  have hmore : os ++ [o] <+: os := by
    apply h.longest (os ++ [o]) rest'
    · rw [h.split, hbytes, List.flatMap_append, List.flatMap_singleton, List.append_assoc]
    · exact (numbered_concat os 0 o).mpr ⟨h.numbered, Nat.le_of_not_lt hfits⟩
  have hlen := hmore.length_le
  rw [List.length_append, List.length_singleton] at hlen
  omega

theorem exists_split : ∀ (k : Nat) (data : Bytes) (n : Nat), data.length ≤ k →
    ∃ (os : List OptionForm) (rest : Bytes), data = os.flatMap OptionForm.bytes ++ rest ∧
      Numbered n os ∧ Stuck (lastNumber n os) rest := by
  intro k
  induction k with
  | zero =>
    intro data n hlen
    obtain rfl : data = [] := List.length_eq_zero_iff.mp (Nat.le_zero.mp hlen)
    refine ⟨[], [], rfl, trivial, ?_⟩
    intro o rest' hbytes
    cases hbytes
  | succ k ih =>
    intro data n hlen
    by_cases hstuck : Stuck n data
    · exact ⟨[], data, rfl, trivial, hstuck⟩
    unfold Stuck at hstuck
    push Not at hstuck
    obtain ⟨o, rest', rfl, hfits⟩ := hstuck
    have hless : rest'.length ≤ k := by
      simp only [OptionForm.bytes, List.cons_append, List.length_cons, List.length_append] at hlen
      omega
    obtain ⟨os, rest, rfl, hnum, hrest⟩ := ih rest' (n + o.delta.value) hless
    refine ⟨o :: os, rest, ?_, ⟨hfits, hnum⟩, hrest⟩
    rw [List.flatMap_cons, List.append_assoc]

theorem exists_longest (data : Bytes) :
    ∃ (os : List OptionForm) (rest : Bytes), Longest data os rest := by
  obtain ⟨os, rest, rfl, hnum, hstuck⟩ := exists_split data.length data 0 le_rfl
  exact ⟨os, rest, longest_of_stuck hnum hstuck⟩

/-! ### The loop -/

theorem parseOptionsLoop_none {b : UInt8} {tail : Bytes} {num : UInt16} (options : Options)
    (hb : b ≠ 0xff) (h : parseOption (b :: tail) num = none) :
    parseOptionsLoop (b :: tail) num options = (options, []) := by
  rw [parseOptionsLoop, if_neg hb]
  split
  · rfl
  rename_i hsome
  rw [h] at hsome
  cases hsome

def storeAll (es : List (Nat × Bytes)) (options : Options) : Options :=
  es.foldl (fun options e => options.insert (UInt16.ofNat e.1) e.2) options

/-- The loop takes a sequence of options one by one. -/
theorem parseOptionsLoop_flatMap : ∀ (os : List OptionForm) (n : Nat) (rest : Bytes)
    (options : Options), Numbered n os →
    parseOptionsLoop (os.flatMap OptionForm.bytes ++ rest) (UInt16.ofNat n) options =
      parseOptionsLoop rest (UInt16.ofNat (lastNumber n os)) (storeAll (entries n os) options) := by
  intro os
  induction os with
  | nil => intro n rest options _; rfl
  | cons o os ih =>
    intro n rest options hnum
    have hparse := parseOption_bytes o (os.flatMap OptionForm.bytes ++ rest) hnum.1
    have hmarker : OptionForm.header o.delta o.length ≠ 0xff :=
      (header_byte (nibble_lt o.delta) (nibble_lt o.length)).2.2
    rw [List.flatMap_cons, List.append_assoc]
    rw [OptionForm.bytes, List.cons_append] at hparse ⊢
    rw [parseOptionsLoop_cons options hmarker hparse, ih _ rest _ hnum.2]
    rfl

theorem getElem?_insert_or (options : Options) (num k : UInt16) (val : Bytes) :
    (options.insert num val)[k]? = ((∅ : Options).insert num val)[k]?.or options[k]? := by
  rw [ExtTreeMap.getElem?_insert, ExtTreeMap.getElem?_insert]
  split
  · rfl
  · simp

/-- What the loop stores does not depend on what is there. -/
theorem getElem?_parseOptionsLoop (data : Bytes) (num : UInt16) (options : Options) (k : UInt16) :
    (parseOptionsLoop data num options).1[k]? =
      (parseOptionsLoop data num ∅).1[k]?.or options[k]? := by
  induction h : data.length using Nat.strong_induction_on generalizing data num options with
  | _ len ih =>
    cases data with
    | nil => simp [parseOptionsLoop]
    | cons b tail =>
      by_cases hb : b = 0xff
      · simp [parseOptionsLoop, hb]
      cases hparse : parseOption (b :: tail) num with
      | none =>
        rw [parseOptionsLoop_none _ hb hparse, parseOptionsLoop_none _ hb hparse]
        simp
      | some result =>
        obtain ⟨num', val, left⟩ := result
        have hless : left.length < len := h ▸ parseOption_length hparse
        rw [parseOptionsLoop_cons _ hb hparse, parseOptionsLoop_cons _ hb hparse,
          ih _ hless left num' (options.insert num' val) rfl,
          ih _ hless left num' ((∅ : Options).insert num' val) rfl, getElem?_insert_or options,
          Option.or_assoc]

/-- One byte has no payload behind it. -/
theorem payload_of_short {data : Bytes} (hlen : data.length ≤ 1) (num : UInt16) (options : Options) :
    (parseOptionsLoop data num options).2 = [] := by
  match data, hlen with
  | [], _ => rw [parseOptionsLoop]
  | [b], _ =>
    by_cases hb : b = 0xff
    · rw [parseOptionsLoop, if_pos hb]
    cases hparse : parseOption [b] num with
    | none => rw [parseOptionsLoop_none _ hb hparse]
    | some result =>
      obtain ⟨num', val, left⟩ := result
      have hless := parseOption_length hparse
      rw [parseOptionsLoop_cons _ hb hparse,
        List.length_eq_zero_iff.mp (Nat.lt_one_iff.mp hless), parseOptionsLoop]

/-- Behind the longest sequence there is a payload only at a marker. -/
theorem payload_of_stuck (hn : n ≤ 65535) (hstuck : Stuck n rest) (options : Options) :
    (parseOptionsLoop rest (UInt16.ofNat n) options).2 = payloadAfter rest := by
  cases rest with
  | nil => rw [parseOptionsLoop, payloadAfter]
  | cons b tail =>
    rw [payloadAfter]
    by_cases hb : b = 0xff
    · rw [parseOptionsLoop, if_pos hb, if_pos hb]
    rw [if_neg hb]
    cases hparse : parseOption (b :: tail) (UInt16.ofNat n) with
    | none => rw [parseOptionsLoop_none _ hb hparse]
    | some result =>
      obtain ⟨num, val, left⟩ := result
      have hcut : CutField (b :: tail) := by
        by_contra hcut
        rw [(stuck_iff_none hn hcut).mp hstuck] at hparse
        cases hparse
      rw [parseOptionsLoop_cons _ hb hparse]
      exact payload_of_short (length_of_misread hn hcut hparse) num _

/-- **Nothing is taken behind the longest sequence iff no cut field is misread.** -/
theorem taken_iff (hn : n ≤ 65535) (hstuck : Stuck n rest) :
    (∀ num : UInt16, (taken n rest)[num]? = none) ↔ ¬ Misread n rest := by
  rw [← none_iff_not_misread hn hstuck, taken]
  cases rest with
  | nil => exact iff_of_true (by simp [parseOptionsLoop]) (by simp [parseOption, decodeOptionHeader])
  | cons b tail =>
    by_cases hb : b = 0xff
    · subst hb
      exact iff_of_true (by simp [parseOptionsLoop]) (parseOption_reserved (.inl (by decide)))
    cases hparse : parseOption (b :: tail) (UInt16.ofNat n) with
    | none =>
      rw [parseOptionsLoop_none _ hb hparse]
      simp
    | some result =>
      obtain ⟨num, val, left⟩ := result
      refine iff_of_false (fun h => ?_) (by simp)
      have hnone := h num
      rw [parseOptionsLoop_cons _ hb hparse, getElem?_parseOptionsLoop] at hnone
      simp at hnone

/-- Later values replace earlier ones. -/
theorem getElem?_storeAll : ∀ (es : List (Nat × Bytes)) (options : Options) (num : UInt16),
    (∀ e ∈ es, e.1 ≤ 65535) →
    (storeAll es options)[num]? = (lastValue num.toNat es).or options[num]? := by
  intro es
  induction es with
  | nil => intro options num _; rfl
  | cons e es ih =>
    intro options num hle
    have he : e.1 ≤ 65535 := hle e List.mem_cons_self
    have hkey : (compare (UInt16.ofNat e.1) num = .eq) ↔ num.toNat = e.1 := by
      rw [Std.compare_eq_iff_eq, ← UInt16.toNat_inj, UInt16.toNat_ofNat']
      omega
    rw [storeAll, List.foldl_cons, ← storeAll,
      ih _ num (fun e' he' => hle e' (List.mem_cons_of_mem e he')), ExtTreeMap.getElem?_insert]
    have hlast : lastValue num.toNat (e :: es) =
        (lastValue num.toNat es).or (if num.toNat = e.1 then some e.2 else none) := by
      rw [lastValue, List.reverse_cons, List.lookup_append, ← lastValue]
      by_cases heq : num.toNat = e.1
      · simp [List.lookup, heq]
      · simp [List.lookup, heq, beq_false_of_ne heq]
    rw [hlast, Option.or_assoc]
    by_cases heq : num.toNat = e.1
    · rw [if_pos (hkey.mpr heq), if_pos heq]
      rfl
    rw [if_neg (fun hc => heq (hkey.mp hc)), if_neg heq]
    rfl

theorem entries_le : ∀ (os : List OptionForm) (n : Nat), Numbered n os →
    ∀ e ∈ entries n os, e.1 ≤ 65535 := by
  intro os
  induction os with
  | nil => intro n _ e he; cases he
  | cons o os ih =>
    intro n hnum e he
    rcases List.mem_cons.mp he with rfl | he
    · exact hnum.1
    · exact ih _ hnum.2 e he

/-- Option 1 with the value `A`. -/
def optionOne : OptionForm := ⟨.small 1, .small 1, [0x41], rfl⟩

theorem numbered_optionOne : Numbered 0 [optionOne] := ⟨by decide, trivial⟩

end SharkSocket.Coap
