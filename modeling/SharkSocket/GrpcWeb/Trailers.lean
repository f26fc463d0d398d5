import SharkSocket.GrpcWeb.Framing
import SharkSocket.Lib.HeaderLines

/-!
# The lines of a trailer frame

The trailer block is text that a client cuts at CR LF.  The status is a number and the
message any bytes the handler chose, so a message that could write a line break would
write a trailer of its own.  `encodeGRPCMessage` leaves a byte of `grpcWebSafeByte` as
it is and writes every other one, the percent sign among them, as `%` and two digits.

* `mem_encodeGRPCMessage`: what it writes is printable ASCII, whatever the message;
* `percentDecode_encodeGRPCMessage`: the client reads the message back;
* `splitLines_trailerBlock`: so the block has the lines that were meant and no others.
-/

namespace SharkSocket.GrpcWeb

open Lib

/-- What the loop of `encodeGRPCMessage` writes for one byte. -/
def encodedByte (c : UInt8) : Bytes :=
  if grpcWebSafeByte c then [c] else [0x25, upperHex (c.toNat / 16), upperHex (c.toNat % 16)]

theorem encodeGRPCMessage_cons (c : UInt8) (s : Bytes) :
    encodeGRPCMessage (c :: s) = encodedByte c ++ encodeGRPCMessage s := rfl

theorem upperHex_range : ∀ n : Fin 16, 0x20 ≤ upperHex n ∧ upperHex n ≤ 0x7e := by decide

theorem hexValue_upperHex : ∀ n : Fin 16, hexValue (upperHex n) = some n.val := by decide

theorem safeByte_range {c : UInt8} (h : grpcWebSafeByte c = true) :
    0x20 ≤ c ∧ c ≤ 0x7e ∧ c ≠ 0x25 := by
  unfold grpcWebSafeByte at h
  rw [decide_eq_true_iff] at h
  simp only [UInt8.le_iff_toNat_le, UInt8.toNat_ofNat, ← UInt8.toNat_inj, ne_eq] at h ⊢
  omega

/-- The two digits of a byte. -/
theorem digits_of_byte (c : UInt8) : ∃ high low : Fin 16, c.toNat / 16 = high ∧
    c.toNat % 16 = low ∧ c.toNat = 16 * high + low := by
  have hc : c.toNat < 256 := c.toNat_lt
  refine ⟨⟨c.toNat / 16, by omega⟩, ⟨c.toNat % 16, by omega⟩, rfl, rfl, ?_⟩
  show c.toNat = 16 * (c.toNat / 16) + c.toNat % 16
  omega

theorem mem_encodedByte {c b : UInt8} (h : b ∈ encodedByte c) : 0x20 ≤ b ∧ b ≤ 0x7e := by
  unfold encodedByte at h
  split at h
  · rename_i hsafe
    rw [List.mem_singleton] at h
    subst h
    exact ⟨(safeByte_range hsafe).1, (safeByte_range hsafe).2.1⟩
  obtain ⟨high, low, hhigh, hlow, -⟩ := digits_of_byte c
  rw [hhigh, hlow] at h
  simp only [List.mem_cons, List.not_mem_nil, or_false] at h
  rcases h with rfl | rfl | rfl
  · decide
  · exact upperHex_range high
  · exact upperHex_range low

theorem mem_encodeGRPCMessage {s : Bytes} {b : UInt8} (h : b ∈ encodeGRPCMessage s) :
    0x20 ≤ b ∧ b ≤ 0x7e := by
  obtain ⟨c, -, hc⟩ := List.mem_flatMap.mp h
  exact mem_encodedByte hc

theorem percentDecode_encodedByte (c : UInt8) (rest : Bytes) :
    percentDecode (encodedByte c ++ rest) = c :: percentDecode rest := by
  unfold encodedByte
  split
  · rename_i hsafe
    exact percentDecode_cons_of_ne (safeByte_range hsafe).2.2 rest
  obtain ⟨high, low, hhigh, hlow, hc⟩ := digits_of_byte c
  rw [hhigh, hlow]
  exact percentDecode_escape (hexValue_upperHex high) (hexValue_upperHex low) hc rest

theorem percentDecode_encodeGRPCMessage (s : Bytes) : percentDecode (encodeGRPCMessage s) = s := by
  induction s with
  | nil => rfl
  | cons c s ih => rw [encodeGRPCMessage_cons, percentDecode_encodedByte, ih]

/-! ### The block -/

theorem return_notMem_statusLine (status : Int) :
    0x0d ∉ ascii "grpc-status: " ++ decimal status := by
  rw [List.mem_append, not_or]
  refine ⟨by decide, fun hmem => ?_⟩
  exact absurd (printable_decimal status 0x0d hmem) (by decide)

theorem return_notMem_messageLine (message : Bytes) :
    0x0d ∉ ascii "grpc-message: " ++ encodeGRPCMessage message := by
  rw [List.mem_append, not_or]
  refine ⟨by decide, fun hmem => ?_⟩
  exact absurd (mem_encodeGRPCMessage hmem) (by decide)

/-- The last CR LF leaves an empty line behind it. -/
theorem splitLines_trailerBlock (status : Int) (message : Bytes) :
    splitLines (trailerBlock status message) = (ascii "grpc-status: " ++ decimal status) ::
        if message = [] then [[]]
        else [ascii "grpc-message: " ++ encodeGRPCMessage message, []] := by
  rw [trailerBlock]
  rw [List.append_assoc _ [0x0d, 0x0a]]
  show splitLines (_ ++ 0x0d :: 0x0a :: _) = _
  rw [splitLines_append (return_notMem_statusLine status)]
  split
  · rfl
  show _ :: splitLines (_ ++ 0x0d :: 0x0a :: []) = _
  rw [splitLines_append (return_notMem_messageLine message)]
  rfl

/-- **Nothing is injected into the trailers.**  The payload of the frame is cut at CR LF
into one line with the status and, if there is a message, one line with it, and nothing
else.  What stands for the message is printable and decodes to it.  A reader of frames
gets that payload, as long as its length fits the header. -/
theorem appendTrailerFrame_lines (dst : Bytes) (status : Int) (message : Bytes) :
    ∃ payload,
      appendTrailerFrame dst status message = dst ++ (Frame.trailer payload).bytes ∧
      splitLines payload =
        (ascii "grpc-status: " ++ decimal status) ::
          (if message = [] then [[]]
            else [ascii "grpc-message: " ++ encodeGRPCMessage message, []]) ∧
      percentDecode (encodeGRPCMessage message) = message ∧
      (∀ b ∈ encodeGRPCMessage message, 0x20 ≤ b ∧ b ≤ 0x7e) ∧
      0x0d ∉ encodeGRPCMessage message ∧ 0x0a ∉ encodeGRPCMessage message ∧
      (payload.length < 2 ^ 32 → ∀ rest,
        takeFrame ((Frame.trailer payload).bytes ++ rest) =
          .ok (trailerFrameFlag, payload, rest)) := by
  refine ⟨trailerBlock status message, appendTrailerFrame_eq dst status message,
    splitLines_trailerBlock status message, percentDecode_encodeGRPCMessage message,
    fun b hb => mem_encodeGRPCMessage hb, ?_, ?_, ?_⟩
  · intro hmem
    exact absurd (mem_encodeGRPCMessage hmem) (by decide)
  · intro hmem
    exact absurd (mem_encodeGRPCMessage hmem) (by decide)
  · intro hshort rest
    exact takeFrame_eq_ok.mpr ⟨hshort, rfl⟩

/-- A message that asks for another status gets one line. -/
theorem appendTrailerFrame_lines_injection : ∃ payload,
    takeFrame (appendTrailerFrame [] 13 (ascii "no\r\ngrpc-status: 0%")) =
        .ok (trailerFrameFlag, payload, []) ∧
      splitLines payload =
        [ascii "grpc-status: 13", ascii "grpc-message: no%0D%0Agrpc-status: 0%25", []] := by
  obtain ⟨payload, hframe, hlines, -, -, -, -, htake⟩ :=
    appendTrailerFrame_lines [] 13 (ascii "no\r\ngrpc-status: 0%")
  have hlen : (appendTrailerFrame [] 13 (ascii "no\r\ngrpc-status: 0%")).length < 100 := by decide
  have hshort : payload.length < 2 ^ 32 := by
    rw [hframe] at hlen
    simp only [Frame.bytes, Frame.payload, appendFrame, List.length_append] at hlen
    omega
  refine ⟨payload, ?_, hlines.trans (by decide)⟩
  have hread := htake hshort []
  rwa [← List.nil_append (Frame.bytes _), ← hframe] at hread

end SharkSocket.GrpcWeb
