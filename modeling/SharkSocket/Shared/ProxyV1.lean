import SharkSocket.Shared.ProxyProto

/-!
# What a version 1 listener accepts

`V1Line` is the grammar of a line without its end: `PROXY UNKNOWN` with anything behind
it, or a family, two addresses and two ports with single spaces between them.
`net.ParseIP` says what an address literal is; a colon tells IPv6 text from a dotted
quad.  A port is written in decimal digits.

The reader leaves both to library routines that see less.  `To4` takes an IPv4 address
written as IPv6 text for a dotted quad, and `Atoi` reads a sign.  The lines that are
accepted are those of the grammar exactly where neither makes a difference
(`readProxyHeader_v1_grammar`).
-/

namespace SharkSocket.Shared

open SharkSocket.Lib

/-! ### The grammar -/

inductive V1Family
  | tcp4
  | tcp6
  deriving DecidableEq, Repr

def V1Family.text : V1Family → Bytes
  | tcp4 => ascii "TCP4"
  | tcp6 => ascii "TCP6"

/-- `s` is an address literal of the family, and `ip` the address it stands for. -/
def V1Address (family : V1Family) (s ip : Bytes) : Prop :=
  parseIP s = some ip ∧ (0x3a ∈ s ↔ family = .tcp6)

/-- `s` is a non-empty string of decimal digits with the value `port`. -/
def V1Port (s : Bytes) (port : Nat) : Prop := decimalValue s = some port ∧ port ≤ 65535

inductive V1Line : Bytes → ProxyHeader → Prop
  | unknown : V1Line (ascii "PROXY UNKNOWN") {}
  | unknownThen (anything : Bytes) : V1Line (ascii "PROXY UNKNOWN " ++ anything) {}
  | addresses {family : V1Family} {src dst sport dport srcIP dstIP : Bytes} {srcPort dstPort : Nat}
      (hsrc : V1Address family src srcIP) (hdst : V1Address family dst dstIP)
      (hsport : V1Port sport srcPort) (hdport : V1Port dport dstPort) :
      V1Line (List.intercalate [0x20] [ascii "PROXY", family.text, src, dst, sport, dport])
        ⟨some ⟨false, srcIP, srcPort⟩, some ⟨false, dstIP, dstPort⟩⟩

/-- The bytes up to the first line feed are a line of the grammar and its end. -/
def V1Header (b : Bytes) (hdr : ProxyHeader) : Prop :=
  ∃ line rest, b = line ++ 0x0d :: 0x0a :: rest ∧ 0x0a ∉ line ∧ line.length + 2 ≤ 107 ∧
    V1Line line hdr

/-! ### Where the reader sees less -/

/-- A literal that stands for an IPv4 address. -/
def IsV4 (s : Bytes) : Prop := ∃ ip, parseIP s = some ip ∧ (to4 ip).isSome = true

/-- An IPv4 address written as IPv6 text. -/
def Mapped (s : Bytes) : Prop := 0x3a ∈ s ∧ IsV4 s

def Signed (s : Bytes) : Prop := s.head? = some 0x2d ∨ s.head? = some 0x2b

def withoutSign : Bytes → Bytes
  | 0x2d :: digits => digits
  | 0x2b :: digits => digits
  | digits => digits

/-- A port with or without a sign; with a minus it is zero. -/
def LaxPort (s : Bytes) (port : Nat) : Prop :=
  V1Port (withoutSign s) port ∧ (s.head? = some 0x2d → port = 0)

/-- Two address literals and two ports, whatever their family and signs. -/
def Lax (src dst sport dport : Bytes) (hdr : ProxyHeader) : Prop :=
  ∃ srcIP dstIP srcPort dstPort, parseIP src = some srcIP ∧ parseIP dst = some dstIP ∧
    LaxPort sport srcPort ∧ LaxPort dport dstPort ∧
    hdr = ⟨some ⟨false, srcIP, srcPort⟩, some ⟨false, dstIP, dstPort⟩⟩

/-- A mapped address or a sign does not change what becomes of the line: for `TCP4` there is
none among IPv4 addresses, and for `TCP6` both or neither occur among IPv6 texts. -/
def V1Agrees (src dst sport dport : Bytes) : V1Family → Prop
  | .tcp4 => IsV4 src → IsV4 dst → ¬ Mapped src ∧ ¬ Mapped dst ∧ ¬ Signed sport ∧ ¬ Signed dport
  | .tcp6 => 0x3a ∈ src → 0x3a ∈ dst →
    (Mapped src ∨ Mapped dst ↔ Signed sport ∨ Signed dport)

/-- The line is no line with addresses, or wrong for another reason, or `V1Agrees`. -/
def V1Exact (b : Bytes) : Prop :=
  ∀ line rest, b = line ++ 0x0d :: 0x0a :: rest → 0x0a ∉ line → line.length + 2 ≤ 107 →
    ∀ (family : V1Family) (src dst sport dport : Bytes) (hdr : ProxyHeader),
      List.splitOn 0x20 line = [ascii "PROXY", family.text, src, dst, sport, dport] →
        Lax src dst sport dport hdr → V1Agrees src dst sport dport family

variable {b ip s : Bytes}

theorem parseProxyIP_eq_ok {wantV4 : Bool} :
    parseProxyIP s wantV4 = .ok ip ↔ parseIP s = some ip ∧ wantV4 = (to4 ip).isSome := by
  unfold parseProxyIP
  cases parseIP s with
  | none => simp
  | some found =>
    dsimp only
    rw [Option.some.injEq]
    split_ifs with hne
    · exact iff_of_false (by simp) (by rintro ⟨rfl, heq⟩; exact hne heq)
    · rw [Except.ok.injEq]
      exact (and_iff_left_of_imp (by rintro rfl; exact not_not.mp hne)).symm

variable {family : V1Family} {hdr : ProxyHeader} {line : Bytes}

/-- A literal without colons is one of an IPv4 address. -/
theorem isV4_of_parseIP (h : parseIP s = some ip) (hcolon : 0x3a ∉ s) : IsV4 s :=
  ⟨ip, h, isSome_to4_of_parseIP h hcolon⟩

theorem isV4_iff (h : parseIP s = some ip) : IsV4 s ↔ (to4 ip).isSome = true := by
  constructor
  · rintro ⟨ip', h', hsome⟩
    rw [h] at h'
    cases h'
    exact hsome
  · intro hsome
    exact ⟨ip, h, hsome⟩

theorem parseProxyPort_eq_ok {port : Nat} :
    parseProxyPort s = .ok port ↔ atoi s = some (port : Int) ∧ port ≤ 65535 := by
  unfold parseProxyPort
  cases atoi s with
  | none => simp
  | some value =>
    dsimp only
    rw [Option.some.injEq]
    split_ifs with hrange
    · exact iff_of_false (by simp) (by omega)
    · rw [Except.ok.injEq]
      omega

theorem withoutSign_of_not_signed (h : ¬ Signed s) : withoutSign s = s := by
  unfold withoutSign
  split
  · exact absurd (.inl rfl) h
  · exact absurd (.inr rfl) h
  · rfl

/-- **A port is read with or without a sign.** -/
theorem parseProxyPort_iff {port : Nat} : parseProxyPort s = .ok port ↔ LaxPort s port := by
  have hmax : maxInt64 = 9223372036854775807 := rfl
  rw [parseProxyPort_eq_ok, LaxPort, V1Port]
  by_cases hsigned : Signed s
  · obtain ⟨digits, rfl | rfl⟩ : ∃ digits, s = 0x2d :: digits ∨ s = 0x2b :: digits := by
      cases s with
      | nil => simp [Signed] at hsigned
      | cons c digits => exact ⟨digits, by simpa [Signed] using hsigned⟩
    · rw [atoi, withoutSign]
      cases decimalValue digits with
      | none => simp
      | some value =>
        simp only [Option.ite_none_right_eq_some, Option.some.injEq, List.head?_cons, true_imp_iff]
        omega
    · rw [atoi, withoutSign]
      cases decimalValue digits with
      | none => simp
      | some value =>
        simp only [Option.ite_none_right_eq_some, Option.some.injEq, List.head?_cons,
          show (0x2b : UInt8) ≠ 0x2d by decide, false_imp_iff, and_true]
        omega
  · have hminus : s.head? ≠ some 0x2d := fun hm => hsigned (.inl hm)
    rw [atoi_unsigned hminus (fun hp => hsigned (.inr hp)), withoutSign_of_not_signed hsigned]
    cases decimalValue s with
    | none => simp
    | some value =>
      simp only [Option.ite_none_right_eq_some, Option.some.injEq, hminus, false_imp_iff, and_true]
      omega

theorem v1Port_iff {port : Nat} : V1Port s port ↔ LaxPort s port ∧ ¬ Signed s := by
  constructor
  · intro h
    have hsigned : ¬ Signed s := by
      have hdigit := isDigit_of_decimalValue h.1
      rintro (hhead | hhead)
      · exact absurd (hdigit _ (List.mem_of_mem_head? hhead)) (by decide)
      · exact absurd (hdigit _ (List.mem_of_mem_head? hhead)) (by decide)
    exact ⟨⟨(withoutSign_of_not_signed hsigned).symm ▸ h, fun hm => absurd (.inl hm) hsigned⟩,
      hsigned⟩
  · rintro ⟨⟨h, -⟩, hsigned⟩
    rwa [withoutSign_of_not_signed hsigned] at h

/-! ### The reader, step by step -/

/-- How the reader tells the families apart. -/
def ReaderTest (family : V1Family) (src dst _ _ : Bytes) : Prop :=
  (family = .tcp4 ↔ IsV4 src) ∧ (family = .tcp4 ↔ IsV4 dst)

/-- What the grammar asks of the addresses and ports. -/
def GrammarTest (family : V1Family) (src dst sport dport : Bytes) : Prop :=
  (0x3a ∈ src ↔ family = .tcp6) ∧ (0x3a ∈ dst ↔ family = .tcp6) ∧ ¬ Signed sport ∧ ¬ Signed dport

/-- The words of a line, with a condition on those that are addresses and ports. -/
inductive WordsAs (P : V1Family → Bytes → Bytes → Bytes → Bytes → Prop) (hdr : ProxyHeader) :
    List Bytes → Prop
  | unknown (fields : List Bytes) (heq : hdr = {}) :
      WordsAs P hdr (ascii "PROXY" :: ascii "UNKNOWN" :: fields)
  | addresses (family : V1Family) (src dst sport dport : Bytes)
      (hlax : Lax src dst sport dport hdr) (hP : P family src dst sport dport) :
      WordsAs P hdr [ascii "PROXY", family.text, src, dst, sport, dport]

theorem parseProxyIP_family : parseProxyIP s (family.text = ascii "TCP4") = .ok ip ↔
    parseIP s = some ip ∧ (family = .tcp4 ↔ IsV4 s) := by
  rw [parseProxyIP_eq_ok]
  refine and_congr_right fun hparse => ?_
  rw [isV4_iff hparse]
  cases family with
  | tcp4 =>
    have hwant : decide (V1Family.tcp4.text = ascii "TCP4") = true := by decide
    rw [hwant, eq_comm]
    simp
  | tcp6 =>
    have hwant : decide (V1Family.tcp6.text = ascii "TCP4") = false := by decide
    rw [hwant, eq_comm, Bool.eq_false_iff]
    simp

theorem parseProxyFields_eq_ok {count : Nat} {fields : List Bytes} :
    parseProxyFields family.text count fields = .ok hdr ↔
      ∃ src dst sport dport, fields = [src, dst, sport, dport] ∧ Lax src dst sport dport hdr ∧
        ReaderTest family src dst sport dport := by
  constructor
  · intro h
    unfold parseProxyFields at h
    split at h
    · obtain ⟨srcIP, hsrc, h⟩ := exists_ok_of_bind h
      obtain ⟨dstIP, hdst, h⟩ := exists_ok_of_bind h
      obtain ⟨srcPort, hsport, h⟩ := exists_ok_of_bind h
      obtain ⟨dstPort, hdport, h⟩ := exists_ok_of_bind h
      cases h
      obtain ⟨hs, hsfamily⟩ := parseProxyIP_family.mp hsrc
      obtain ⟨hd, hdfamily⟩ := parseProxyIP_family.mp hdst
      exact ⟨_, _, _, _, rfl, ⟨srcIP, dstIP, srcPort, dstPort, hs, hd,
        parseProxyPort_iff.mp hsport, parseProxyPort_iff.mp hdport, rfl⟩, hsfamily, hdfamily⟩
    · cases h
  · rintro ⟨src, dst, sport, dport, rfl, ⟨srcIP, dstIP, srcPort, dstPort, hsrc, hdst, hsport, hdport,
      rfl⟩, hs, hd⟩
    show (do
      let src ← parseProxyIP src (family.text = ascii "TCP4")
      let dst ← parseProxyIP dst (family.text = ascii "TCP4")
      let sport ← parseProxyPort sport
      let dport ← parseProxyPort dport
      return ⟨some (proxyAddr src sport false), some (proxyAddr dst dport false)⟩ :
        Except ProxyErr ProxyHeader) = _
    rw [parseProxyIP_family.mpr ⟨hsrc, hs⟩, parseProxyIP_family.mpr ⟨hdst, hd⟩,
      parseProxyPort_iff.mpr hsport, parseProxyPort_iff.mpr hdport]
    rfl

/-- A line that ends as it should is taken by its words. -/
theorem parseProxyLine_crlf {text : Bytes} : parseProxyLine (text ++ [0x0d] ++ [0x0a]) = .ok hdr ↔
    text.length + 2 ≤ 107 ∧ WordsAs ReaderTest hdr (List.splitOn 0x20 text) := by
  have hmax : proxyV1MaxLen = 107 := rfl
  have hlength : (text ++ [0x0d] ++ [0x0a]).length = text.length + 2 := by simp
  have hlast : (text ++ [0x0d] ++ [0x0a]).getD text.length 0 = 0x0d := by
    simp [List.getD_eq_getElem?_getD]
  have htext : (text ++ [0x0d] ++ [0x0a]).take text.length = text := by
    rw [List.append_assoc, List.take_left]
  unfold parseProxyLine
  rw [hlength, Nat.add_sub_cancel, hlast, htext]
  generalize List.splitOn 0x20 text = words
  by_cases hlen : text.length + 2 ≤ 107
  · rw [if_neg (by omega), if_neg (by rw [not_or, not_not]; exact ⟨by omega, rfl⟩),
      and_iff_right hlen]
    constructor
    · intro h
      split at h
      · split_ifs at h with hword hunknown hfamily
        · obtain rfl := not_not.mp hword
          cases h
          rw [hunknown]
          exact .unknown _ rfl
        · obtain rfl := not_not.mp hword
          obtain ⟨family, rfl⟩ : ∃ family, _ = V1Family.text family :=
            hfamily.elim (⟨.tcp4, ·⟩) (⟨.tcp6, ·⟩)
          obtain ⟨src, dst, sport, dport, rfl, hlax, htest⟩ := parseProxyFields_eq_ok.mp h
          exact .addresses family src dst sport dport hlax htest
      · cases h
    · rintro (⟨fields, heq⟩ | ⟨family, src, dst, sport, dport, hlax, htest⟩)
      · dsimp only
        rw [if_neg (by simp), if_pos rfl, heq]
      · have hfields : parseProxyFields family.text 6 [src, dst, sport, dport] = .ok hdr :=
          parseProxyFields_eq_ok.mpr ⟨src, dst, sport, dport, rfl, hlax, htest⟩
        cases family with
        | tcp4 | tcp6 => exact hfields
  · rw [if_pos (by omega)]
    exact iff_of_false nofun fun h => hlen h.1

theorem parseProxyLine_eq_ok : parseProxyLine (line ++ [0x0a]) = .ok hdr ↔
      ∃ text, line = text ++ [0x0d] ∧ text.length + 2 ≤ 107 ∧
        WordsAs ReaderTest hdr (List.splitOn 0x20 text) := by
  constructor
  · intro h
    have hline := h
    unfold parseProxyLine at hline
    split at hline
    · cases hline
    split at hline
    · cases hline
    rename_i hcr
    rw [not_or, not_not] at hcr
    obtain ⟨hlong, hcr⟩ := hcr
    -- the byte before the line feed is the last of `line`
    rcases List.eq_nil_or_concat line with rfl | ⟨text, last, rfl⟩
    · exact absurd hlong (by decide)
    obtain rfl : last = 0x0d := by
      simpa [List.getD_eq_getElem?_getD] using hcr
    rw [List.concat_eq_append] at h ⊢
    exact ⟨text, rfl, parseProxyLine_crlf.mp h⟩
  · rintro ⟨text, rfl, h⟩
    exact parseProxyLine_crlf.mpr h

theorem decodeV1_eq_ok : (decodeV1 b).1 = .ok hdr ↔
      ∃ line rest, b = line ++ 0x0a :: rest ∧ 0x0a ∉ line ∧
        parseProxyLine (line ++ [0x0a]) = .ok hdr := by
  unfold decodeV1
  constructor
  · intro h
    have hnone : (BufReader.sliceOf 0x0A proxyHeaderBuffer b).2 = none := by
      unfold proxyLineOf at h
      split at h
      · cases h
      · cases h
      rename_i hslice
      rw [hslice]
    obtain ⟨line, rest, hb, hline, hslice⟩ := BufReader.sliceOf_line hnone
    have hpair : BufReader.sliceOf 0x0A proxyHeaderBuffer b = (line ++ [0x0a], none) :=
      Prod.ext hslice hnone
    rw [hpair] at h
    exact ⟨line, rest, hb, hline, h⟩
  · rintro ⟨line, rest, rfl, hline, h⟩
    -- a line that is short enough fits the buffer
    obtain ⟨text, rfl, hlen, -⟩ := parseProxyLine_eq_ok.mp h
    have hsize : proxyHeaderBuffer = 256 := rfl
    have hfits : (text ++ [0x0d]).length + 1 ≤ proxyHeaderBuffer := by
      rw [List.length_append, List.length_singleton]
      omega
    have hidx : BufReader.indexOf? 0x0A (((text ++ [0x0d]) ++ 0x0a :: rest).take
        proxyHeaderBuffer) = some (text ++ [0x0d]).length := by
      rw [List.take_append, List.take_of_length_le (by omega)]
      obtain ⟨k, hk⟩ : ∃ k, proxyHeaderBuffer - (text ++ [0x0d]).length = k + 1 :=
        ⟨proxyHeaderBuffer - (text ++ [0x0d]).length - 1, by omega⟩
      rw [hk]
      exact BufReader.indexOf?_append_cons hline _
    have hslice : BufReader.sliceOf 0x0A proxyHeaderBuffer ((text ++ [0x0d]) ++ 0x0a :: rest) =
        (text ++ [0x0d] ++ [0x0a], none) := by
      unfold BufReader.sliceOf
      rw [hidx]
      dsimp only
      rw [List.take_length_add_append]
      rfl
    rw [hslice]
    exact h

theorem decodeHeader_v1_eq_ok : (decodeHeader .v1 b).1 = .ok hdr ↔
      proxyV2Signature.length ≤ b.length ∧ proxyV1Signature <+: b ∧ (decodeV1 b).1 = .ok hdr := by
  have hsig : proxyV1Signature <+: b.take proxyV2Signature.length ↔ proxyV1Signature <+: b := by
    rw [List.prefix_take_iff]
    exact and_iff_left (by decide)
  unfold decodeHeader BufReader.peekOf
  by_cases hlen : proxyV2Signature.length ≤ b.length
  · rw [if_pos hlen]
    unfold headerVersion
    dsimp only
    by_cases hv1 : proxyV1Signature <+: b.take proxyV2Signature.length
    · rw [if_pos hv1]
      exact ⟨fun h => ⟨hlen, hsig.mp hv1, h⟩, fun h => h.2.2⟩
    constructor
    · intro h
      split_ifs at h
    · rintro ⟨-, hv1', -⟩
      exact absurd (hsig.mpr hv1') hv1
  · rw [if_neg hlen]
    constructor
    · intro h
      cases h
    · rintro ⟨hlen', -, -⟩
      exact absurd hlen' hlen

/-! ### The reader and the grammar -/

theorem space_notMem_of_port {port : Nat} (h : V1Port s port) : (0x20 : UInt8) ∉ s := by
  intro hspace
  exact absurd (isDigit_of_decimalValue h.1 0x20 hspace) (by decide)

/-- The words of a line with addresses. -/
theorem splitOn_addresses {src dst sport dport srcIP dstIP : Bytes} {srcPort dstPort : Nat}
    (hsrc : V1Address family src srcIP) (hdst : V1Address family dst dstIP)
    (hsport : V1Port sport srcPort) (hdport : V1Port dport dstPort) :
    List.splitOn 0x20 (List.intercalate [0x20]
      [ascii "PROXY", family.text, src, dst, sport, dport]) =
      [ascii "PROXY", family.text, src, dst, sport, dport] := by
  refine List.splitOn_intercalate 0x20 ?_ (List.cons_ne_nil _ _)
  have hfamily : 0x20 ∉ family.text := by
    cases family with
    | tcp4 | tcp6 => decide
  simp only [List.forall_mem_cons]
  exact ⟨by decide, hfamily, notMem_of_parseIP hsrc.1 (by decide),
    notMem_of_parseIP hdst.1 (by decide), space_notMem_of_port hsport,
    space_notMem_of_port hdport, by simp⟩

theorem line_iff : V1Line line hdr ↔ WordsAs GrammarTest hdr (List.splitOn 0x20 line) := by
  constructor
  · rintro (_ | anything | @⟨family, src, dst, sport, dport, srcIP, dstIP, srcPort, dstPort, hsrc,
      hdst, hsport, hdport⟩)
    · exact .unknown [] rfl
    · exact .unknown _ rfl
    rw [splitOn_addresses hsrc hdst hsport hdport]
    obtain ⟨hsp, hsu⟩ := v1Port_iff.mp hsport
    obtain ⟨hdp, hdu⟩ := v1Port_iff.mp hdport
    exact .addresses family src dst sport dport ⟨srcIP, dstIP, srcPort, dstPort, hsrc.1, hdst.1, hsp,
      hdp, rfl⟩ ⟨hsrc.2, hdst.2, hsu, hdu⟩
  · intro h
    have hjoin : List.intercalate [0x20] (List.splitOn 0x20 line) = line :=
      List.intercalate_splitOn 0x20
    generalize List.splitOn 0x20 line = words at h hjoin
    rw [← hjoin]
    cases h with
    | unknown fields heq =>
      subst heq
      cases fields with
      | nil => exact .unknown
      | cons first fields => exact .unknownThen (List.intercalate [0x20] (first :: fields))
    | addresses family src dst sport dport hlax htest =>
      obtain ⟨srcIP, dstIP, srcPort, dstPort, hsrc, hdst, hsport, hdport, rfl⟩ := hlax
      obtain ⟨hs, hd, hsu, hdu⟩ := htest
      exact .addresses ⟨hsrc, hs⟩ ⟨hdst, hd⟩ (v1Port_iff.mpr ⟨hsport, hsu⟩)
        (v1Port_iff.mpr ⟨hdport, hdu⟩)

section

variable {P Q : V1Family → Bytes → Bytes → Bytes → Bytes → Prop} {words : List Bytes}

/-- The words determine the family. -/
theorem WordsAs.test {src dst sport dport : Bytes}
    (h : WordsAs P hdr [ascii "PROXY", family.text, src, dst, sport, dport]) :
    P family src dst sport dport := by
  generalize hwords : [ascii "PROXY", family.text, src, dst, sport, dport] = words at h
  cases h with
  | unknown fields _ =>
    simp only [List.cons.injEq] at hwords
    cases family with
    | tcp4 | tcp6 => exact absurd hwords.2.1 (by decide)
  | addresses family' _ _ _ _ _ hP =>
    simp only [List.cons.injEq, and_true, true_and] at hwords
    obtain ⟨htext, rfl, rfl, rfl, rfl⟩ := hwords
    obtain rfl : family = family' := by
      cases family with
      | tcp4 | tcp6 =>
        cases family' with
        | tcp4 | tcp6 => first | rfl | exact absurd htext (by decide)
    exact hP

/-- Two conditions take the same lines if they agree on the addresses and ports. -/
theorem wordsAs_congr : (∀ hdr, WordsAs P hdr words ↔ WordsAs Q hdr words) ↔
    ∀ (family : V1Family) (src dst sport dport : Bytes) (hdr : ProxyHeader),
      words = [ascii "PROXY", family.text, src, dst, sport, dport] → Lax src dst sport dport hdr →
        (P family src dst sport dport ↔ Q family src dst sport dport) := by
  constructor
  · rintro h family src dst sport dport hdr rfl hlax
    constructor
    · intro hP
      exact ((h hdr).mp (.addresses family src dst sport dport hlax hP)).test
    · intro hQ
      exact ((h hdr).mpr (.addresses family src dst sport dport hlax hQ)).test
  · intro h hdr
    constructor
    · rintro (⟨fields, heq⟩ | ⟨family, src, dst, sport, dport, hlax, hP⟩)
      · exact .unknown fields heq
      · exact .addresses _ _ _ _ _ hlax ((h family src dst sport dport hdr rfl hlax).mp hP)
    · rintro (⟨fields, heq⟩ | ⟨family, src, dst, sport, dport, hlax, hQ⟩)
      · exact .unknown fields heq
      · exact .addresses _ _ _ _ _ hlax ((h family src dst sport dport hdr rfl hlax).mpr hQ)

/-- The line is signed, and long enough to be looked at. -/
theorem WordsAs.signed (h : WordsAs P hdr (List.splitOn 0x20 line)) :
    proxyV1Signature <+: line ∧ 10 ≤ line.length := by
  have hfront : ∀ second fields, 4 ≤ second.length →
      proxyV1Signature <+: List.intercalate [0x20] (ascii "PROXY" :: second :: fields) ∧
        10 ≤ (List.intercalate [0x20] (ascii "PROXY" :: second :: fields)).length := by
    intro second fields hlen
    have hproxy : (ascii "PROXY").length = 5 := rfl
    refine ⟨⟨List.intercalate [0x20] (second :: fields), rfl⟩, ?_⟩
    have hsecond : second.length ≤ (List.intercalate [0x20] (second :: fields)).length := by
      cases fields with
      | nil => simp [List.intercalate]
      | cons third fields => simp [List.intercalate_cons_cons]
    rw [List.intercalate_cons_cons, List.length_append, List.length_append, List.length_singleton]
    omega
  have hjoin : List.intercalate [0x20] (List.splitOn 0x20 line) = line :=
    List.intercalate_splitOn 0x20
  rw [← hjoin]
  generalize List.splitOn 0x20 line = words at h
  cases h with
  | unknown fields _ => exact hfront _ _ (by decide)
  | addresses family _ _ _ _ _ _ =>
    refine hfront _ _ ?_
    cases family with
    | tcp4 | tcp6 => decide

end

theorem agrees_iff {src dst sport dport : Bytes} (hlax : Lax src dst sport dport hdr) :
    (ReaderTest family src dst sport dport ↔ GrammarTest family src dst sport dport) ↔
      V1Agrees src dst sport dport family := by
  obtain ⟨srcIP, dstIP, -, -, hsrc, hdst, -⟩ := hlax
  have hs : 0x3a ∉ src → IsV4 src := isV4_of_parseIP hsrc
  have hd : 0x3a ∉ dst → IsV4 dst := isV4_of_parseIP hdst
  unfold ReaderTest GrammarTest
  cases family with
  | tcp4 =>
    simp only [V1Agrees, Mapped, true_iff, reduceCtorEq, iff_false]
    tauto
  | tcp6 =>
    simp only [V1Agrees, Mapped, reduceCtorEq, false_iff, iff_true]
    by_cases hcs : 0x3a ∈ src
    · by_cases hcd : 0x3a ∈ dst
      · simp only [hcs, hcd, true_and, forall_const, ← not_or, not_iff_not]
      · simp [hcd, hd hcd]
    · simp [hcs, hs hcs]

theorem decodeHeader_v1_words : (decodeHeader .v1 b).1 = .ok hdr ↔
    ∃ line rest, b = line ++ 0x0d :: 0x0a :: rest ∧ 0x0a ∉ line ∧ line.length + 2 ≤ 107 ∧
      WordsAs ReaderTest hdr (List.splitOn 0x20 line) := by
  rw [decodeHeader_v1_eq_ok, decodeV1_eq_ok]
  constructor
  · rintro ⟨-, -, line, rest, hb, hline, hparse⟩
    obtain ⟨text, rfl, hlen, hwords⟩ := parseProxyLine_eq_ok.mp hparse
    refine ⟨text, rest, by rw [hb, List.append_assoc]; rfl, ?_, hlen, hwords⟩
    exact fun hm => hline (List.mem_append_left _ hm)
  · rintro ⟨text, rest, hb, hfree, hlen, hwords⟩
    obtain ⟨hsigned, hlong⟩ := hwords.signed
    have hsig : proxyV2Signature.length = 12 := rfl
    refine ⟨?_, ?_, text ++ [0x0d], rest, ?_, ?_, ?_⟩
    · rw [hb, List.length_append, List.length_cons, List.length_cons]
      omega
    · rw [hb]
      exact hsigned.trans (List.prefix_append _ _)
    · rw [hb, List.append_assoc]
      rfl
    · simp [hfree]
    · exact parseProxyLine_eq_ok.mpr ⟨text, rfl, hlen, hwords⟩

/-- The line of a stream is the text before its first line feed. -/
theorem line_unique {line text rest tail : Bytes} (hb : b = line ++ 0x0d :: 0x0a :: rest)
    (hline : 0x0a ∉ line) (hb' : b = text ++ 0x0d :: 0x0a :: tail) (htext : 0x0a ∉ text) :
    line = text := by
  have hcut : ∀ l r : Bytes, l ++ 0x0d :: 0x0a :: r = (l ++ [0x0d]) ++ 0x0a :: r := by simp
  rw [hb, hcut, hcut] at hb'
  obtain ⟨hsame, -⟩ := BufReader.append_cons_inj (by simp [hline]) (by simp [htext]) hb'
  exact List.append_cancel_right hsame

/-- **A version 1 listener accepts the lines of the grammar**, however the bytes arrive, and
reports the addresses and ports that are written, exactly if no mapped address or sign
changes what becomes of the line (`V1Exact`). -/
theorem readProxyHeader_v1_grammar (s : Source UInt8) :
    (∀ hdr, (readProxyHeader (.new proxyHeaderBuffer s) .v1).1 = .ok hdr ↔
      V1Header s.pending hdr) ↔ V1Exact s.pending := by
  have hread : (readProxyHeader (.new proxyHeaderBuffer s) .v1).1 =
      (decodeHeader .v1 s.pending).1 := congrArg Prod.fst (readProxyHeader_new s .v1)
  simp only [hread, decodeHeader_v1_words, V1Header, line_iff]
  generalize s.pending = b
  constructor
  · intro h line rest hb hfree hlen family src dst sport dport hdr hsplit hlax
    -- the line of the stream is this one
    have hwords : ∀ hdr, WordsAs ReaderTest hdr (List.splitOn 0x20 line) ↔
        WordsAs GrammarTest hdr (List.splitOn 0x20 line) := by
      intro hdr
      constructor
      · intro hw
        obtain ⟨text, tail, hb', hfree', -, hw'⟩ := (h hdr).mp ⟨line, rest, hb, hfree, hlen, hw⟩
        rwa [line_unique hb hfree hb' hfree']
      · intro hw
        obtain ⟨text, tail, hb', hfree', -, hw'⟩ := (h hdr).mpr ⟨line, rest, hb, hfree, hlen, hw⟩
        rwa [line_unique hb hfree hb' hfree']
    exact (agrees_iff hlax).mp (wordsAs_congr.mp hwords family src dst sport dport hdr hsplit hlax)
  · intro h hdr
    refine exists_congr fun line => exists_congr fun rest => and_congr_right fun hb =>
      and_congr_right fun hfree => and_congr_right fun hlen => ?_
    refine wordsAs_congr.mpr (fun family src dst sport dport hdr hsplit hlax => ?_) hdr
    exact (agrees_iff hlax).mpr (h line rest hb hfree hlen family src dst sport dport hdr hsplit hlax)

/-- A stream in one piece. -/
def oneChunk (first : UInt8) (rest : Bytes) : Source UInt8 :=
  ⟨[⟨first :: rest, List.cons_ne_nil first rest⟩]⟩

def signedPortV1 : Source UInt8 := oneChunk 0x50 (ascii "ROXY TCP4 1.2.3.4 5.6.7.8 +80 443\r\n")

def mappedV1 : Source UInt8 := oneChunk 0x50 (ascii "ROXY TCP6 ::ffff:1.2.3.4 ::1 80 443\r\n")

/-- `+80` is read as a port, and an IPv6 literal is refused for `TCP6` because it stands
for an IPv4 address. -/
theorem v1_sign_and_mapped :
    ((readProxyHeader (.new proxyHeaderBuffer signedPortV1) .v1).1 =
        .ok ⟨some ⟨false, v4InV6Prefix ++ [1, 2, 3, 4], 80⟩,
          some ⟨false, v4InV6Prefix ++ [5, 6, 7, 8], 443⟩⟩ ∧
      ∀ hdr, ¬ V1Header signedPortV1.pending hdr) ∧
    (readProxyHeader (.new proxyHeaderBuffer mappedV1) .v1).1 =
        .error (.invalid (.v1AddressFamily (ascii "::ffff:1.2.3.4"))) ∧
      V1Header mappedV1.pending
        ⟨some ⟨false, v4InV6Prefix ++ [1, 2, 3, 4], 80⟩,
          some ⟨false, List.replicate 15 0 ++ [1], 443⟩⟩ := by
  refine ⟨⟨by decide +kernel, ?_⟩, by decide +kernel, ?_⟩
  · rintro hdr ⟨line, rest, hb, hline, -, hgrammar⟩
    have hpending : signedPortV1.pending =
        ascii "PROXY TCP4 1.2.3.4 5.6.7.8 +80 443" ++ 0x0d :: 0x0a :: [] := by decide +kernel
    obtain rfl := line_unique hb hline hpending (by decide +kernel)
    have hwords : List.splitOn 0x20 (ascii "PROXY TCP4 1.2.3.4 5.6.7.8 +80 443") =
        [ascii "PROXY", V1Family.text .tcp4, ascii "1.2.3.4", ascii "5.6.7.8", ascii "+80",
          ascii "443"] := by decide +kernel
    have hgrammar' := line_iff.mp hgrammar
    rw [hwords] at hgrammar'
    exact hgrammar'.test.2.2.1 (.inr rfl)
  · have haddr : V1Address .tcp6 (ascii "::ffff:1.2.3.4") (v4InV6Prefix ++ [1, 2, 3, 4]) :=
      ⟨by decide +kernel, by decide +kernel⟩
    have hone : V1Address .tcp6 (ascii "::1") (List.replicate 15 0 ++ [1]) :=
      ⟨by decide +kernel, by decide +kernel⟩
    have hport : V1Port (ascii "80") 80 := ⟨by decide, by decide⟩
    have hport' : V1Port (ascii "443") 443 := ⟨by decide, by decide⟩
    exact ⟨ascii "PROXY TCP6 ::ffff:1.2.3.4 ::1 80 443", [], by decide +kernel, by decide +kernel,
      by decide, .addresses haddr hone hport hport'⟩

end SharkSocket.Shared
