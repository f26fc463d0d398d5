import SharkSocket.Shared.ProxyProto

/-!
# What a version 2 listener accepts

`V2Legal` is the format of the header: signature, version, one of the two commands,
a length within the limit with that many bytes behind it, and room for the
addresses of a family that has them.  `V2Reports` is what such a header says.

The source tests one command only, so it takes a header with any of the other
fourteen for a `LOCAL` one.
-/

namespace SharkSocket.Shared

open SharkSocket.Lib

/-- The families with addresses: datagrams or not, and the bytes of one address. -/
inductive Family : UInt8 → Bool → Nat → Prop
  | tcp4 : Family proxyFamTCP4 false 4
  | udp4 : Family proxyFamUDP4 true 4
  | tcp6 : Family proxyFamTCP6 false 16
  | udp6 : Family proxyFamUDP6 true 16

structure V2Legal (b : Bytes) : Prop extends V2Framed b where
  command : v2Command b = proxyV2CmdLocal ∨ v2Command b = proxyV2CmdProxy
  block : v2Command b = proxyV2CmdProxy → ∀ dgram n, Family (v2FamProto b) dgram n →
    2 * n + 4 ≤ v2Length b

/-- The addresses a header reports: none for `LOCAL` and for the other families,
else the ones at the head of its block. -/
inductive V2Reports (b : Bytes) : ProxyHeader → Prop
  | onLocal (command : v2Command b = proxyV2CmdLocal) : V2Reports b {}
  | otherFamily (family : ∀ dgram n, ¬ Family (v2FamProto b) dgram n) : V2Reports b {}
  | block {dgram : Bool} {n : Nat} {src dst sport dport tlvs rest : Bytes}
      (command : v2Command b = proxyV2CmdProxy) (family : Family (v2FamProto b) dgram n)
      (whole : b.drop 16 = src ++ dst ++ sport ++ dport ++ tlvs ++ rest)
      (within : (src ++ dst ++ sport ++ dport ++ tlvs).length = v2Length b)
      (hsrc : src.length = n) (hdst : dst.length = n)
      (hsport : sport.length = 2) (hdport : dport.length = 2) :
      V2Reports b ⟨some ⟨dgram, src, beNat sport⟩, some ⟨dgram, dst, beNat dport⟩⟩

structure UnknownCommand (b : Bytes) : Prop extends V2Framed b where
  notLocal : v2Command b ≠ proxyV2CmdLocal
  notProxy : v2Command b ≠ proxyV2CmdProxy

/-! ### The switch on the family -/

theorem addressLen_eq_some_iff {fam : UInt8} {dgram : Bool} {n : Nat} :
    addressLen fam = some (dgram, n) ↔ Family fam dgram n := by
  constructor
  · intro h
    unfold addressLen at h
    split_ifs at h with h4 h6
    · cases h
      rcases h4 with rfl | rfl
      · exact .tcp4
      · exact .udp4
    · cases h
      rcases h6 with rfl | rfl
      · exact .tcp6
      · exact .udp6
  · intro h
    cases h <;> rfl

theorem addressLen_eq_none_iff {fam : UInt8} :
    addressLen fam = none ↔ ∀ dgram n, ¬ Family fam dgram n := by
  rw [Option.eq_none_iff_forall_ne_some]
  constructor
  · intro h dgram n hf
    exact h (dgram, n) (addressLen_eq_some_iff.mpr hf)
  · rintro h ⟨dgram, n⟩ hsome
    exact h dgram n (addressLen_eq_some_iff.mp hsome)

/-! ### The reader as an iff -/

variable {b : Bytes} {hdr : ProxyHeader}

/-- A version 2 listener goes past the signature only if it is there. -/
theorem decodeHeader_v2_signed (h : proxyV2Signature <+: b) : decodeHeader .v2 b = decodeV2 b := by
  have hhead : proxyV2Signature = b.take proxyV2Signature.length := List.prefix_iff_eq_take.mp h
  have hpeek : BufReader.peekOf proxyV2Signature.length b = .ok proxyV2Signature := by
    rw [BufReader.peekOf, if_pos h.length_le, ← hhead]
  unfold decodeHeader
  rw [if_neg (by decide), hpeek]
  dsimp only
  rw [headerVersion, if_pos rfl]

theorem signed_of_decodeHeader_v2 (h : (decodeHeader .v2 b).1 = .ok hdr) :
    proxyV2Signature <+: b := by
  unfold decodeHeader at h
  cases hpeek : BufReader.peekOf proxyV2Signature.length b with
  | error e => rw [hpeek] at h; cases h
  | ok head =>
    rw [hpeek] at h
    obtain ⟨-, rfl⟩ := BufReader.peekOf_ok hpeek
    by_contra hsig
    have hne : b.take proxyV2Signature.length ≠ proxyV2Signature :=
      fun heq => hsig (heq ▸ List.take_prefix _ b)
    dsimp only at h
    rw [headerVersion, if_neg hne] at h
    by_cases hv1 : proxyV1Signature <+: b.take proxyV2Signature.length
    · rw [if_pos hv1] at h
      cases h
    rw [if_neg hv1] at h
    cases h

theorem decodeHeader_v2_ok_iff : (decodeHeader .v2 b).1 = .ok hdr ↔
      V2Framed b ∧ parseProxyPayload (v2Command b) (v2FamProto b) (v2Payload b) = .ok hdr := by
  constructor
  · intro h
    rw [decodeHeader_v2_signed (signed_of_decodeHeader_v2 h)] at h
    have hframed := framed_of_decodeV2 h
    rw [decodeV2_framed hframed] at h
    exact ⟨hframed, h⟩
  · rintro ⟨hframed, h⟩
    rw [decodeHeader_v2_signed hframed.signed, decodeV2_framed hframed, h]

theorem readProxyHeader_v2_ok_iff {s : Source UInt8} :
    (readProxyHeader (.new proxyHeaderBuffer s) .v2).1 = .ok hdr ↔
      V2Framed s.pending ∧ parseProxyPayload (v2Command s.pending) (v2FamProto s.pending)
        (v2Payload s.pending) = .ok hdr := by
  rw [← decodeHeader_v2_ok_iff, ← readProxyHeader_new]
  rfl

/-! ### The payload -/

theorem exists_parseProxyPayload_iff (cmd fam : UInt8) (payload : Bytes) :
    (∃ hdr, parseProxyPayload cmd fam payload = .ok hdr) ↔
      (cmd = proxyV2CmdProxy → ∀ dgram n, Family fam dgram n → 2 * n + 4 ≤ payload.length) := by
  unfold parseProxyPayload
  by_cases hcmd : cmd = proxyV2CmdProxy
  · rw [if_neg (not_not.mpr hcmd)]
    cases hfam : addressLen fam with
    | none =>
      have hno := addressLen_eq_none_iff.mp hfam
      exact ⟨fun _ _ dgram n hf => absurd hf (hno dgram n), fun _ => ⟨_, rfl⟩⟩
    | some entry =>
      obtain ⟨dgram, n⟩ := entry
      have hf := addressLen_eq_some_iff.mp hfam
      dsimp only
      constructor
      · rintro ⟨hdr, h⟩ - dgram' n' hf'
        obtain ⟨-, rfl⟩ : dgram = dgram' ∧ n = n' := by
          have hsame := hfam.symm.trans (addressLen_eq_some_iff.mpr hf')
          simpa using hsame
        split_ifs at h
        omega
      · intro h
        have hroom := h hcmd dgram n hf
        rw [if_neg (by omega)]
        exact ⟨_, rfl⟩
  · rw [if_pos hcmd]
    exact ⟨fun _ h => absurd h hcmd, fun _ => ⟨_, rfl⟩⟩

theorem drop_eq_take_append (l : Bytes) (i j : Nat) :
    l.drop i = (l.drop i).take j ++ l.drop (i + j) := by
  rw [← List.drop_drop, List.take_append_drop]

/-- The payload cut into the fields of an address block. -/
theorem cut_block (l : Bytes) (n : Nat) :
    l = l.take n ++ (l.drop n).take n ++ (l.drop (n + n)).take 2 ++
      (l.drop (n + n + 2)).take 2 ++ l.drop (n + n + 4) := by
  rw [List.append_assoc, List.append_assoc, List.append_assoc,
    ← drop_eq_take_append l (n + n + 2) 2, ← drop_eq_take_append l (n + n) 2,
    ← drop_eq_take_append l n n, List.take_append_drop]

theorem reports_of_parse (hframed : V2Framed b)
    (hcmd : v2Command b = proxyV2CmdLocal ∨ v2Command b = proxyV2CmdProxy)
    (h : parseProxyPayload (v2Command b) (v2FamProto b) (v2Payload b) = .ok hdr) :
    V2Reports b hdr := by
  unfold parseProxyPayload at h
  split at h
  · rename_i hne
    cases h
    exact .onLocal (hcmd.resolve_right hne)
  rename_i hproxy
  split at h
  · rename_i hfam
    cases h
    exact .otherFamily (addressLen_eq_none_iff.mp hfam)
  rename_i dgram n hfam
  split at h
  · cases h
  cases h
  have hcut := cut_block (v2Payload b) n
  have hwhole : b.drop 16 = v2Payload b ++ b.drop (16 + v2Length b) := by
    rw [v2Payload, ← List.drop_drop, List.take_append_drop]
  rw [hcut] at hwhole
  refine .block (not_not.mp hproxy) (addressLen_eq_some_iff.mp hfam) hwhole ?_ ?_ ?_ ?_ ?_
  · rw [← hcut, hframed.length_payload]
  all_goals
    simp only [List.length_take, List.length_drop]
    omega

/-! ### The two compared -/

theorem framed_iff :
    V2Framed b ∧ (v2Command b = proxyV2CmdProxy → ∀ dgram n, Family (v2FamProto b) dgram n →
        2 * n + 4 ≤ v2Length b) ↔ V2Legal b ∨ UnknownCommand b := by
  constructor
  · rintro ⟨hframed, hblock⟩
    by_cases hcmd : v2Command b = proxyV2CmdLocal ∨ v2Command b = proxyV2CmdProxy
    · exact .inl ⟨hframed, hcmd, hblock⟩
    obtain ⟨hlocal, hproxy⟩ := not_or.mp hcmd
    exact .inr ⟨hframed, hlocal, hproxy⟩
  · rintro (h | h)
    · exact ⟨h.toV2Framed, h.block⟩
    · exact ⟨h.toV2Framed, fun hproxy => absurd hproxy h.notProxy⟩

/-- What a version 2 listener accepts. -/
theorem readProxyHeader_v2_accepts_iff (s : Source UInt8) :
    (∃ hdr, (readProxyHeader (.new proxyHeaderBuffer s) .v2).1 = .ok hdr) ↔
      V2Legal s.pending ∨ UnknownCommand s.pending := by
  rw [← framed_iff]
  constructor
  · rintro ⟨hdr, h⟩
    obtain ⟨hframed, hparse⟩ := readProxyHeader_v2_ok_iff.mp h
    have hroom := (exists_parseProxyPayload_iff _ _ _).mp ⟨hdr, hparse⟩
    rw [hframed.length_payload] at hroom
    exact ⟨hframed, hroom⟩
  · rintro ⟨hframed, hroom⟩
    rw [← hframed.length_payload] at hroom
    obtain ⟨hdr, hparse⟩ := (exists_parseProxyPayload_iff _ _ _).mpr hroom
    exact ⟨hdr, readProxyHeader_v2_ok_iff.mpr ⟨hframed, hparse⟩⟩

/-- A version 2 listener accepts the legal headers and reports their addresses, as
long as the command is one of the two. -/
theorem v2_accepts_legal_iff (s : Source UInt8) :
    (((∃ hdr, (readProxyHeader (.new proxyHeaderBuffer s) .v2).1 = .ok hdr) ↔ V2Legal s.pending) ∧
        ∀ hdr, (readProxyHeader (.new proxyHeaderBuffer s) .v2).1 = .ok hdr →
          V2Reports s.pending hdr) ↔
      ¬ UnknownCommand s.pending := by
  have haccepts := readProxyHeader_v2_accepts_iff s
  constructor
  · rintro ⟨hiff, -⟩ hunknown
    have hlegal := hiff.mp (haccepts.mpr (.inr hunknown))
    rcases hlegal.command with hlocal | hproxy
    · exact hunknown.notLocal hlocal
    · exact hunknown.notProxy hproxy
  · intro hknown
    refine ⟨haccepts.trans (or_iff_left hknown), fun hdr h => ?_⟩
    have hlegal := (haccepts.mp ⟨hdr, h⟩).resolve_right hknown
    obtain ⟨hframed, hparse⟩ := readProxyHeader_v2_ok_iff.mp h
    exact reports_of_parse hframed hlegal.command hparse

/-- Command 2 is neither `LOCAL` nor `PROXY`. -/
def commandTwo : Chunk UInt8 := ⟨proxyV2Signature ++ [0x22, 0x00, 0x00, 0x00], List.cons_ne_nil _ _⟩

theorem commandTwo_accepted :
    (readProxyHeader (.new proxyHeaderBuffer ⟨[commandTwo]⟩) .v2).1 = .ok {} ∧
      ¬ V2Legal (Source.pending ⟨[commandTwo]⟩) := by
  refine ⟨by decide +kernel, fun h => ?_⟩
  rcases h.command with hcmd | hcmd <;> exact absurd hcmd (by decide)

end SharkSocket.Shared
