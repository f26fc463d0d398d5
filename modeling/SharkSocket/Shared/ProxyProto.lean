import SharkSocket.Core
import SharkSocket.Lib.BigEndian
import SharkSocket.Lib.Ip
import SharkSocket.Lib.Stream

/-!
# `shared/proxyproto.go`: the PROXY protocol header

`readProxyHeader` and the connection that `handshake` makes of its reader, as the
source computes them over a `bufio.Reader`.  `decodeHeader` is what the reader
does to the list of bytes to come: the result, and what is left.  The two agree
on every reader (`readProxyHeader_eq`), so the pieces in which the bytes arrive
do not matter, and where a header ends can be read off the bytes.

An error keeps the sentinel it wraps and what its text is made of.
-/

namespace SharkSocket.Shared

open SharkSocket.Lib

inductive ProxyProtocolMode
  | off
  | v1
  | v2
  | auto
  deriving DecidableEq, Repr

/-- The exported sentinels, and the error of a mode that reads no header. -/
inductive ProxySentinel
  | errProxyHeaderInvalid
  | errProxyHeaderVersion
  | errProxyHeaderTooLong
  | notAHeaderMode
  deriving DecidableEq, Repr

/-- What the text after the sentinel says. -/
inductive ProxyDetail
  | read (e : ReadErr)
  | missingV1Prefix
  | missingV2Signature
  | noPrefix
  | v1Only
  | v2Only
  | v1LineOverBuffer
  | v1LineTooLong (len : Nat)
  | v1NotCRLF
  | v1NotProxy
  | v1Family (family : Bytes)
  | v1FieldCount (family : Bytes) (count : Nat)
  | v1Address (text : Bytes)
  | v1AddressFamily (text : Bytes)
  | v1Port (text : Bytes)
  | v2Fixed (e : ReadErr)
  | v2Signature
  | v2Version (nibble : UInt8)
  | v2TooLong (len : Nat)
  | v2Payload (e : ReadErr)
  | v2Block (len want : Nat)
  | mode
  deriving DecidableEq, Repr

structure ProxyErr where
  sentinel : ProxySentinel
  detail : ProxyDetail
  deriving DecidableEq, Repr

def ProxyErr.invalid (detail : ProxyDetail) : ProxyErr := ⟨.errProxyHeaderInvalid, detail⟩
def ProxyErr.badVersion (detail : ProxyDetail) : ProxyErr := ⟨.errProxyHeaderVersion, detail⟩
def ProxyErr.tooLong (detail : ProxyDetail) : ProxyErr := ⟨.errProxyHeaderTooLong, detail⟩

def proxyV1MaxLen : Nat := 107
def proxyHeaderBuffer : Nat := 256
def proxyV2MaxPayload : Nat := 2048

def proxyV1Signature : Bytes := ascii "PROXY "

def proxyV2Signature : Bytes :=
  [0x0D, 0x0A, 0x0D, 0x0A, 0x00, 0x0D, 0x0A, 0x51, 0x55, 0x49, 0x54, 0x0A]

def proxyV2CmdLocal : UInt8 := 0x0
def proxyV2CmdProxy : UInt8 := 0x1

def proxyFamTCP4 : UInt8 := 0x11
def proxyFamUDP4 : UInt8 := 0x12
def proxyFamTCP6 : UInt8 := 0x21
def proxyFamUDP6 : UInt8 := 0x22

/-- A `net.TCPAddr`, or a `net.UDPAddr` if `dgram`. -/
structure NetAddr where
  dgram : Bool
  ip : Bytes
  port : Nat
  deriving DecidableEq, Repr

/-- `nil` is `none`. -/
structure ProxyHeader where
  source : Option NetAddr := none
  dest : Option NetAddr := none
  deriving DecidableEq, Repr

def proxyAddr (ip : Bytes) (port : Nat) (dgram : Bool) : NetAddr := ⟨dgram, ip, port⟩

/-! ### Version 1 -/

def parseProxyIP (s : Bytes) (wantV4 : Bool) : Except ProxyErr Bytes :=
  match parseIP s with
  | none => .error (.invalid (.v1Address s))
  | some ip =>
    if wantV4 ≠ (to4 ip).isSome then .error (.invalid (.v1AddressFamily s)) else .ok ip

def parseProxyPort (s : Bytes) : Except ProxyErr Nat :=
  match atoi s with
  | none => .error (.invalid (.v1Port s))
  | some port => if port < 0 ∨ 65535 < port then .error (.invalid (.v1Port s)) else .ok port.toNat

/-- The four fields after the family. -/
def parseProxyFields (family : Bytes) (count : Nat) :
    List Bytes → Except ProxyErr ProxyHeader
  | [f2, f3, f4, f5] => do
    let src ← parseProxyIP f2 (family = ascii "TCP4")
    let dst ← parseProxyIP f3 (family = ascii "TCP4")
    let sport ← parseProxyPort f4
    let dport ← parseProxyPort f5
    return ⟨some (proxyAddr src sport false), some (proxyAddr dst dport false)⟩
  | _ => .error (.invalid (.v1FieldCount family count))

/-- `readProxyV1` once it has its line. -/
def parseProxyLine (line : Bytes) : Except ProxyErr ProxyHeader :=
  if proxyV1MaxLen < line.length then .error (.tooLong (.v1LineTooLong line.length))
  else if line.length < 2 ∨ line.getD (line.length - 2) 0 ≠ 0x0D then .error (.invalid .v1NotCRLF)
  else
    match List.splitOn 0x20 (line.take (line.length - 2)) with
    | word :: family :: fields =>
      if word ≠ ascii "PROXY" then .error (.invalid .v1NotProxy)
      else if family = ascii "UNKNOWN" then .ok {}
      else if family = ascii "TCP4" ∨ family = ascii "TCP6" then
        parseProxyFields family (fields.length + 2) fields
      else .error (.invalid (.v1Family family))
    | _ => .error (.invalid .v1NotProxy)

/-- What becomes of the answer of `ReadSlice`. -/
def proxyLineOf : Bytes × Option ReadErr → Except ProxyErr ProxyHeader
  | (_, some .bufferFull) => .error (.tooLong .v1LineOverBuffer)
  | (_, some e) => .error (.invalid (.read e))
  | (line, none) => parseProxyLine line

def readProxyV1 (br : BufReader UInt8) : Except ProxyErr ProxyHeader × BufReader UInt8 :=
  let r := br.readSlice 0x0A
  (proxyLineOf r.1, r.2)

/-! ### Version 2 -/

/-- The fields of the fixed part that `readProxyV2` reads. -/
def v2Version (fixed : Bytes) : UInt8 := fixed.getD 12 0 >>> 4
def v2Command (fixed : Bytes) : UInt8 := fixed.getD 12 0 &&& 0x0F
def v2FamProto (fixed : Bytes) : UInt8 := fixed.getD 13 0
def v2Length (fixed : Bytes) : Nat := beNat ((fixed.drop 14).take 2)

/-- The switch on the family byte: a datagram family or not, and the length of one
address. -/
def addressLen (famProto : UInt8) : Option (Bool × Nat) :=
  if famProto = proxyFamTCP4 ∨ famProto = proxyFamUDP4 then some (famProto = proxyFamUDP4, 4)
  else if famProto = proxyFamTCP6 ∨ famProto = proxyFamUDP6 then some (famProto = proxyFamUDP6, 16)
  else none

/-- `readProxyV2` once it has its payload. -/
def parseProxyPayload (cmd famProto : UInt8) (payload : Bytes) : Except ProxyErr ProxyHeader :=
  if cmd ≠ proxyV2CmdProxy then .ok {}
  else
    match addressLen famProto with
    | none => .ok {}
    | some (dgram, n) =>
      if payload.length < n + n + 4 then
        .error (.invalid (.v2Block payload.length (n + n + 4)))
      else
        .ok ⟨some (proxyAddr (payload.take n) (beNat ((payload.drop (n + n)).take 2)) dgram),
          some (proxyAddr ((payload.drop n).take n)
            (beNat ((payload.drop (n + n + 2)).take 2)) dgram)⟩

/-- The checks on the fixed part: the length of the payload, if they pass. -/
def checkProxyFixed (fixed : Bytes) : Except ProxyErr Nat :=
  if fixed.take 12 ≠ proxyV2Signature then .error (.badVersion .v2Signature)
  else if v2Version fixed ≠ 2 then .error (.badVersion (.v2Version (v2Version fixed)))
  else if proxyV2MaxPayload < v2Length fixed then .error (.tooLong (.v2TooLong (v2Length fixed)))
  else .ok (v2Length fixed)

def readProxyV2 (br : BufReader UInt8) : Except ProxyErr ProxyHeader × BufReader UInt8 :=
  match BufReader.reader.readFull 16 br with
  | (.error e, br) => (.error (.invalid (.v2Fixed e)), br)
  | (.ok fixed, br) =>
    match checkProxyFixed fixed with
    | .error e => (.error e, br)
    | .ok length =>
      match if 0 < length then BufReader.reader.readFull length br else (.ok [], br) with
      | (.error e, br) => (.error (.invalid (.v2Payload e)), br)
      | (.ok payload, br) =>
        (parseProxyPayload (v2Command fixed) (v2FamProto fixed) payload, br)

/-! ### The header -/

/-- What the mode makes of the first twelve bytes: the version to read, or why not. -/
def headerVersion (mode : ProxyProtocolMode) (head : Bytes) : Except ProxyErr ProxyProtocolMode :=
  match mode with
  | .v1 =>
    if proxyV1Signature <+: head then .ok .v1
    else if head = proxyV2Signature then .error (.badVersion .v1Only)
    else .error (.invalid .missingV1Prefix)
  | .v2 =>
    if head = proxyV2Signature then .ok .v2
    else if proxyV1Signature <+: head then .error (.badVersion .v2Only)
    else .error (.invalid .missingV2Signature)
  | .auto =>
    if proxyV1Signature <+: head then .ok .v1
    else if head = proxyV2Signature then .ok .v2
    else .error (.invalid .noPrefix)
  | .off => .error ⟨.notAHeaderMode, .mode⟩

def readProxyHeader (br : BufReader UInt8) (mode : ProxyProtocolMode) :
    Except ProxyErr ProxyHeader × BufReader UInt8 :=
  if mode = .off then (.error ⟨.notAHeaderMode, .mode⟩, br)
  else
    match br.peek proxyV2Signature.length with
    | (.error e, br) => (.error (.invalid (.read e)), br)
    | (.ok head, br) =>
      match headerVersion mode head with
      | .error e => (.error e, br)
      | .ok .v1 => readProxyV1 br
      | .ok _ => readProxyV2 br

/-! ### The connection -/

/-- `proxyConn`: reads go through the reader that read the header. -/
structure ProxyConn where
  r : BufReader UInt8
  remote : NetAddr

def ProxyConn.read (n : Nat) (c : ProxyConn) : Bytes × ProxyConn :=
  ((c.r.read n).1, ⟨(c.r.read n).2, c.remote⟩)

def handshake (mode : ProxyProtocolMode) (peer : NetAddr) (conn : Source UInt8) :
    Except ProxyErr ProxyConn :=
  match readProxyHeader (.new proxyHeaderBuffer conn) mode with
  | (.error e, _) => .error e
  | (.ok hdr, br) => .ok ⟨br, hdr.source.getD peer⟩

/-! ### The header as a function of the bytes to come -/

def decodeV1 (b : Bytes) : Except ProxyErr ProxyHeader × Bytes :=
  (proxyLineOf (BufReader.sliceOf 0x0A proxyHeaderBuffer b),
    b.drop (BufReader.sliceOf 0x0A proxyHeaderBuffer b).1.length)

def decodeV2 (b : Bytes) : Except ProxyErr ProxyHeader × Bytes :=
  match Reader.fullOf 16 b with
  | .error e => (.error (.invalid (.v2Fixed e)), b.drop 16)
  | .ok fixed =>
    match checkProxyFixed fixed with
    | .error e => (.error e, b.drop 16)
    | .ok length =>
      (match Reader.fullOf length (b.drop 16) with
        | .error e => .error (.invalid (.v2Payload e))
        | .ok payload => parseProxyPayload (v2Command fixed) (v2FamProto fixed) payload,
        b.drop (16 + length))

def decodeHeader (mode : ProxyProtocolMode) (b : Bytes) : Except ProxyErr ProxyHeader × Bytes :=
  if mode = .off then (.error ⟨.notAHeaderMode, .mode⟩, b)
  else
    match BufReader.peekOf proxyV2Signature.length b with
    | .error e => (.error (.invalid (.read e)), b)
    | .ok head =>
      match headerVersion mode head with
      | .error e => (.error e, b)
      | .ok .v1 => decodeV1 b
      | .ok _ => decodeV2 b

/-- A result and a reader, as a result and the bytes to come. -/
def seen {ρ : Type*} (x : ρ × BufReader UInt8) : ρ × Bytes := (x.1, x.2.pending)

theorem readProxyV1_eq {br : BufReader UInt8} (hsize : br.size = proxyHeaderBuffer) :
    seen (readProxyV1 br) = decodeV1 br.pending := by
  obtain ⟨br', hslice, hrest, -⟩ := br.readSlice_eq 0x0A
  rw [hsize] at hslice hrest
  unfold seen readProxyV1 decodeV1
  rw [hslice, hrest]

/-- `io.ReadFull` of a payload that may be empty. -/
theorem readPayload_eq (length : Nat) (br : BufReader UInt8) :
    ∃ br', (if 0 < length then BufReader.reader.readFull length br else (.ok [], br)) =
        (Reader.fullOf length br.pending, br') ∧ br'.pending = br.pending.drop length := by
  split
  · obtain ⟨br', hpay, hrest, -⟩ := br.readFull_eq length
    exact ⟨br', hpay, hrest⟩
  obtain rfl : length = 0 := by omega
  exact ⟨br, rfl, rfl⟩

theorem readProxyV2_eq (br : BufReader UInt8) : seen (readProxyV2 br) = decodeV2 br.pending := by
  obtain ⟨br', hfixed, hrest, -⟩ := br.readFull_eq 16
  unfold readProxyV2 decodeV2
  rw [hfixed]
  cases Reader.fullOf 16 br.pending with
  | error e => exact Prod.ext rfl hrest
  | ok fixed =>
    dsimp only
    cases checkProxyFixed fixed with
    | error e => exact Prod.ext rfl hrest
    | ok length =>
      obtain ⟨br'', hpay, hleft⟩ := readPayload_eq length br'
      rw [hrest] at hpay
      rw [hrest, List.drop_drop] at hleft
      dsimp only
      rw [hpay]
      cases Reader.fullOf length (br.pending.drop 16) with
      | error e | ok payload => exact Prod.ext rfl hleft

/-- What the reader returns and leaves is a function of the bytes to come. -/
theorem readProxyHeader_eq (br : BufReader UInt8) (hsize : br.size = proxyHeaderBuffer)
    (mode : ProxyProtocolMode) : seen (readProxyHeader br mode) = decodeHeader mode br.pending := by
  have hfits : proxyV2Signature.length ≤ br.size := by rw [hsize]; decide
  obtain ⟨br', hpeek, hrest, hsame, -⟩ := BufReader.peek_eq hfits
  unfold readProxyHeader decodeHeader
  split
  · rfl
  rw [hpeek]
  cases BufReader.peekOf proxyV2Signature.length br.pending with
  | error e => exact Prod.ext rfl hrest
  | ok head =>
    dsimp only
    rw [← hrest]
    cases headerVersion mode head with
    | error e => rfl
    | ok version =>
      cases version with
      | v1 => exact readProxyV1_eq (hsame.trans hsize)
      | off | v2 | auto => exact readProxyV2_eq br'

/-! ### Where the header ends -/

/-- The header at the head of `b` takes `n` bytes: up to its first line feed, or
the fixed part and the length it gives. -/
inductive HeaderEnds (b : Bytes) : Nat → Prop
  | v1 {line rest : Bytes} (signed : proxyV1Signature <+: b) (whole : b = line ++ 0x0A :: rest)
      (first : 0x0A ∉ line) : HeaderEnds b (line.length + 1)
  | v2 (signed : proxyV2Signature <+: b) : HeaderEnds b (16 + v2Length b)

theorem headerVersion_ok {mode version : ProxyProtocolMode} {head : Bytes}
    (h : headerVersion mode head = .ok version) :
    (version = .v1 ∧ proxyV1Signature <+: head) ∨ (version = .v2 ∧ head = proxyV2Signature) := by
  unfold headerVersion at h
  split at h
  · split_ifs at h with hsig
    cases h
    exact .inl ⟨rfl, hsig⟩
  · split_ifs at h with hsig
    cases h
    exact .inr ⟨rfl, hsig⟩
  · split_ifs at h with hsig hsig'
    · cases h
      exact .inl ⟨rfl, hsig⟩
    · cases h
      exact .inr ⟨rfl, hsig'⟩
  · cases h

variable {hdr : ProxyHeader} {b : Bytes} {mode : ProxyProtocolMode}

theorem decodeV1_ends (hsig : proxyV1Signature <+: b) (h : (decodeV1 b).1 = .ok hdr) :
    ∃ n ≤ b.length, HeaderEnds b n ∧ (decodeV1 b).2 = b.drop n := by
  have hnone : (BufReader.sliceOf 0x0A proxyHeaderBuffer b).2 = none := by
    unfold decodeV1 proxyLineOf at h
    split at h
    · cases h
    · cases h
    rename_i hslice
    rw [hslice]
  obtain ⟨line, rest, hb, hline, hslice⟩ := BufReader.sliceOf_line hnone
  refine ⟨line.length + 1, ?_, .v1 hsig hb hline, ?_⟩
  · rw [hb, List.length_append, List.length_cons]
    omega
  · unfold decodeV1
    rw [hslice, List.length_append, List.length_singleton]

theorem checkProxyFixed_ok {fixed : Bytes} {length : Nat} (h : checkProxyFixed fixed = .ok length) :
    fixed.take 12 = proxyV2Signature ∧ v2Version fixed = 2 ∧ length = v2Length fixed ∧
      length ≤ proxyV2MaxPayload := by
  unfold checkProxyFixed at h
  split_ifs at h with hsig hver hlen
  cases h
  exact ⟨not_not.mp hsig, not_not.mp hver, rfl, by omega⟩

/-- The fixed part is the first sixteen bytes, and its fields are the stream's. -/
theorem v2Length_take (b : Bytes) : v2Length (b.take 16) = v2Length b := by
  unfold v2Length
  rw [List.drop_take, List.take_take]
  rfl

theorem getD_take {i n : Nat} (h : i < n) : (b.take n).getD i 0 = b.getD i 0 := by
  rw [List.getD_eq_getElem?_getD, List.getD_eq_getElem?_getD, List.getElem?_take_of_lt h]

theorem v2Version_take (b : Bytes) : v2Version (b.take 16) = v2Version b := by
  rw [v2Version, v2Version, getD_take (by decide)]

theorem v2Command_take (b : Bytes) : v2Command (b.take 16) = v2Command b := by
  rw [v2Command, v2Command, getD_take (by decide)]

theorem v2FamProto_take (b : Bytes) : v2FamProto (b.take 16) = v2FamProto b := by
  rw [v2FamProto, v2FamProto, getD_take (by decide)]

/-- A signed header of version 2 with its payload there. -/
structure V2Framed (b : Bytes) : Prop where
  signed : proxyV2Signature <+: b
  version : v2Version b = 2
  limit : v2Length b ≤ proxyV2MaxPayload
  there : 16 + v2Length b ≤ b.length

def v2Payload (b : Bytes) : Bytes := (b.drop 16).take (v2Length b)

theorem V2Framed.length_payload (h : V2Framed b) : (v2Payload b).length = v2Length b := by
  have hthere := h.there
  rw [v2Payload, List.length_take, List.length_drop]
  omega

theorem V2Framed.checkProxyFixed (h : V2Framed b) :
    checkProxyFixed (b.take 16) = .ok (v2Length b) := by
  have hsig : (b.take 16).take 12 = proxyV2Signature := by
    rw [List.take_take]
    exact (List.prefix_iff_eq_take.mp h.signed).symm
  have hlimit := h.limit
  unfold Shared.checkProxyFixed
  rw [if_neg (not_not.mpr hsig), v2Version_take, if_neg (not_not.mpr h.version), v2Length_take,
    if_neg (by omega)]

theorem decodeV2_framed (h : V2Framed b) :
    decodeV2 b = (parseProxyPayload (v2Command b) (v2FamProto b) (v2Payload b),
      b.drop (16 + v2Length b)) := by
  have hthere := h.there
  have hfixed : Reader.fullOf 16 b = .ok (b.take 16) := if_pos (by omega)
  have hpay : Reader.fullOf (v2Length b) (b.drop 16) = .ok (v2Payload b) :=
    if_pos (by rw [List.length_drop]; omega)
  unfold decodeV2
  rw [hfixed]
  dsimp only
  rw [h.checkProxyFixed]
  dsimp only
  rw [hpay, v2Command_take, v2FamProto_take]

theorem framed_of_decodeV2 (h : (decodeV2 b).1 = .ok hdr) : V2Framed b := by
  unfold decodeV2 at h
  cases hfixed : Reader.fullOf 16 b with
  | error e => rw [hfixed] at h; cases h
  | ok fixed =>
    rw [hfixed] at h
    obtain ⟨hlen, rfl⟩ := Reader.fullOf_ok hfixed
    dsimp only at h
    cases hcheck : checkProxyFixed (b.take 16) with
    | error e => rw [hcheck] at h; cases h
    | ok length =>
      rw [hcheck] at h
      obtain ⟨hsig, hver, rfl, hlimit⟩ := checkProxyFixed_ok hcheck
      dsimp only at h
      rw [v2Length_take] at h hlimit
      rw [v2Version_take] at hver
      rw [List.take_take] at hsig
      cases hpay : Reader.fullOf (v2Length b) (b.drop 16) with
      | error e => rw [hpay] at h; cases h
      | ok payload =>
        obtain ⟨hrest, -⟩ := Reader.fullOf_ok hpay
        rw [List.length_drop] at hrest
        exact ⟨hsig ▸ List.take_prefix _ b, hver, hlimit, by omega⟩

theorem decodeV2_ends (h : (decodeV2 b).1 = .ok hdr) :
    ∃ n ≤ b.length, HeaderEnds b n ∧ (decodeV2 b).2 = b.drop n := by
  have hframed := framed_of_decodeV2 h
  rw [decodeV2_framed hframed]
  exact ⟨16 + v2Length b, hframed.there, .v2 hframed.signed, rfl⟩

theorem decodeHeader_ends (h : (decodeHeader mode b).1 = .ok hdr) :
    ∃ n ≤ b.length, HeaderEnds b n ∧ (decodeHeader mode b).2 = b.drop n := by
  unfold decodeHeader at h ⊢
  split at h
  · cases h
  rename_i hmode
  rw [if_neg hmode]
  cases hpeek : BufReader.peekOf proxyV2Signature.length b with
  | error e => rw [hpeek] at h; cases h
  | ok head =>
    rw [hpeek] at h
    obtain ⟨-, rfl⟩ := BufReader.peekOf_ok hpeek
    dsimp only at h ⊢
    cases hver : headerVersion mode (b.take proxyV2Signature.length) with
    | error e => rw [hver] at h; cases h
    | ok version =>
      rw [hver] at h
      rcases headerVersion_ok hver with ⟨rfl, hsig⟩ | ⟨rfl, -⟩
      · exact decodeV1_ends (hsig.trans (List.take_prefix _ b)) h
      · exact decodeV2_ends h

/-! ### What is reported -/

structure NetAddr.WellFormed (a : NetAddr) : Prop where
  ip : a.ip.length = 4 ∨ a.ip.length = 16
  port : a.port < 65536

/-- Both addresses or none. -/
inductive ProxyHeader.WellFormed : ProxyHeader → Prop
  | none : WellFormed {}
  | both {source dest : NetAddr} (hsource : source.WellFormed) (hdest : dest.WellFormed)
      (alike : source.ip.length = dest.ip.length ∧ source.dgram = dest.dgram) :
      WellFormed ⟨some source, some dest⟩

theorem length_of_parseProxyIP {s ip : Bytes} {wantV4 : Bool}
    (h : parseProxyIP s wantV4 = .ok ip) : ip.length = 16 := by
  unfold parseProxyIP at h
  split at h
  · cases h
  rename_i found hfound
  split_ifs at h
  cases h
  exact length_parseIP hfound

theorem lt_of_parseProxyPort {s : Bytes} {port : Nat} (h : parseProxyPort s = .ok port) :
    port < 65536 := by
  unfold parseProxyPort at h
  split at h
  · cases h
  split_ifs at h
  cases h
  omega

theorem exists_ok_of_bind {ε α β : Type} {x : Except ε α} {f : α → Except ε β} {b : β}
    (h : (x >>= f) = .ok b) : ∃ a, x = .ok a ∧ f a = .ok b := by
  cases x with
  | error e => cases h
  | ok a => exact ⟨a, rfl, h⟩

theorem parseProxyFields_wellFormed {family : Bytes} {count : Nat} {fields : List Bytes}
    (h : parseProxyFields family count fields = .ok hdr) : hdr.WellFormed := by
  unfold parseProxyFields at h
  split at h
  · obtain ⟨src, hsrc, h⟩ := exists_ok_of_bind h
    obtain ⟨dst, hdst, h⟩ := exists_ok_of_bind h
    obtain ⟨sport, hsport, h⟩ := exists_ok_of_bind h
    obtain ⟨dport, hdport, h⟩ := exists_ok_of_bind h
    cases h
    have hs := length_of_parseProxyIP hsrc
    have hd := length_of_parseProxyIP hdst
    exact .both ⟨.inr hs, lt_of_parseProxyPort hsport⟩ ⟨.inr hd, lt_of_parseProxyPort hdport⟩
      ⟨hs.trans hd.symm, rfl⟩
  · cases h

theorem parseProxyLine_wellFormed {line : Bytes} (h : parseProxyLine line = .ok hdr) :
    hdr.WellFormed := by
  unfold parseProxyLine at h
  split_ifs at h
  split at h
  · split_ifs at h
    · cases h
      exact .none
    · exact parseProxyFields_wellFormed h
  · cases h

theorem beNat_two_lt (l : Bytes) : beNat (l.take 2) < 65536 := by
  have hlt := beNat_lt (l.take 2)
  have hle : 256 ^ (l.take 2).length ≤ 256 ^ 2 :=
    Nat.pow_le_pow_right (by decide) (List.length_take_le 2 l)
  omega

theorem parseProxyPayload_wellFormed {cmd famProto : UInt8} {payload : Bytes}
    (h : parseProxyPayload cmd famProto payload = .ok hdr) : hdr.WellFormed := by
  unfold parseProxyPayload at h
  split at h
  · cases h
    exact .none
  split at h
  · cases h
    exact .none
  rename_i dgram n hfam
  split at h
  · cases h
  cases h
  have hn : n = 4 ∨ n = 16 := by
    unfold addressLen at hfam
    split_ifs at hfam
    · cases hfam
      exact .inl rfl
    · cases hfam
      exact .inr rfl
  have hsrc : (payload.take n).length = n := by
    rw [List.length_take]
    omega
  have hdst : ((payload.drop n).take n).length = n := by
    rw [List.length_take, List.length_drop]
    omega
  exact .both ⟨by rw [proxyAddr, hsrc]; exact hn, beNat_two_lt _⟩
    ⟨by rw [proxyAddr, hdst]; exact hn, beNat_two_lt _⟩ ⟨hsrc.trans hdst.symm, rfl⟩

theorem decodeHeader_wellFormed (h : (decodeHeader mode b).1 = .ok hdr) : hdr.WellFormed := by
  have hv1 : (decodeV1 b).1 = .ok hdr → hdr.WellFormed := by
    intro hok
    unfold decodeV1 proxyLineOf at hok
    split at hok
    · cases hok
    · cases hok
    · exact parseProxyLine_wellFormed hok
  have hv2 : (decodeV2 b).1 = .ok hdr → hdr.WellFormed := by
    intro hok
    rw [decodeV2_framed (framed_of_decodeV2 hok)] at hok
    exact parseProxyPayload_wellFormed hok
  unfold decodeHeader at h
  split at h
  · cases h
  split at h
  · cases h
  split at h
  · cases h
  · exact hv1 h
  · exact hv2 h

/-! ### Reading on -/

def ProxyConn.reader : Reader ProxyConn UInt8 where
  read := ProxyConn.read
  pending := fun c => c.r.pending
  read_append := fun n c => BufReader.read_append n c.r
  read_le := fun n c => BufReader.read_le n c.r
  read_ne := fun n c => BufReader.read_ne n c.r

theorem readProxyHeader_new (s : Source UInt8) (mode : ProxyProtocolMode) :
    seen (readProxyHeader (.new proxyHeaderBuffer s) mode) = decodeHeader mode s.pending :=
  readProxyHeader_eq (.new proxyHeaderBuffer s) rfl mode

/-- Whatever the bytes and however they arrive, an accepted header has two addresses of
one length and two ports, or none. -/
theorem accepted_wellFormed {s : Source UInt8}
    (h : (readProxyHeader (.new proxyHeaderBuffer s) mode).1 = .ok hdr) : hdr.WellFormed := by
  have hdecode := congrArg Prod.fst (readProxyHeader_new s mode)
  exact decodeHeader_wellFormed (hdecode.symm.trans h)

def tcp4Line : Chunk UInt8 :=
  ⟨ascii "PROXY TCP4 10.0.0.1 10.0.0.2 5683 80\r\n", List.cons_ne_nil _ _⟩

theorem accepted_wellFormed_tcp4Line : ∃ source dest,
    (readProxyHeader (.new proxyHeaderBuffer ⟨[tcp4Line]⟩) .auto).1 = .ok ⟨some source, some dest⟩ ∧
      ProxyHeader.WellFormed ⟨some source, some dest⟩ := by
  have hok : (readProxyHeader (.new proxyHeaderBuffer ⟨[tcp4Line]⟩) .auto).1 =
      .ok ⟨some ⟨false, v4InV6Prefix ++ [10, 0, 0, 1], 5683⟩,
        some ⟨false, v4InV6Prefix ++ [10, 0, 0, 2], 80⟩⟩ := by decide +kernel
  exact ⟨_, _, hok, accepted_wellFormed hok⟩

theorem handshake_ok {peer : NetAddr} {s : Source UInt8} {conn : ProxyConn}
    (h : handshake mode peer s = .ok conn) : ∃ hdr, (decodeHeader mode s.pending).1 = .ok hdr ∧
      ProxyConn.reader.pending conn = (decodeHeader mode s.pending).2 := by
  have heq := readProxyHeader_new s mode
  unfold handshake at h
  generalize readProxyHeader (.new proxyHeaderBuffer s) mode = result at h heq
  obtain ⟨answer, br⟩ := result
  rw [← heq]
  cases answer with
  | error e => cases h
  | ok hdr =>
    cases h
    exact ⟨hdr, rfl, rfl⟩

def piecewise (b : Bytes) : Source UInt8 := ⟨b.map fun x => ⟨[x], List.cons_ne_nil x []⟩⟩

def unknownThenHi : Chunk UInt8 := ⟨ascii "PROXY UNKNOWN\r\nhi", List.cons_ne_nil _ _⟩

end SharkSocket.Shared
