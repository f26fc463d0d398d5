import SharkSocket.Core
import SharkSocket.Lib.BigEndian
import SharkSocket.Lib.Text

/-!
# `grpcweb/framing.go`: frames in a request body

A frame is a flag, the length of its payload and the payload.  The flag tells data
from trailers.  `parseRequestPayload` returns the data of a body that is made of
frames; another body is handed on as it is, unless the request says that it must be
framed.

* `takeFrame_eq_ok`: what the loop takes off the front of a body is a frame;
* `parseLoop_concat` and `concat_of_parseLoop`: the loop accepts the concatenations
  of frames and nothing else;
* `parseRequestPayload_framing`: so does the parser, in both modes;
* `strict_request_framed`: a strict request is framed or refused iff it has five bytes.
-/

namespace SharkSocket.GrpcWeb

open Lib

def dataFrameFlag : UInt8 := 0x00

def trailerFrameFlag : UInt8 := 0x80

def frameHeaderSize : Nat := 5

/-! ### Reading -/

inductive FramingErr
  | headerTruncated
  | payloadTruncated
  | unsupportedFlag (flag : UInt8)
  deriving DecidableEq, Repr

def FramingErr.text : FramingErr → Bytes
  | .headerTruncated => ascii "grpc-web frame header truncated"
  | .payloadTruncated => ascii "grpc-web frame payload truncated"
  | .unsupportedFlag flag =>
    ascii "unsupported grpc-web frame flag 0x" ++
      [hexDigit (flag.toNat / 16), hexDigit (flag.toNat % 16)]

/-- The part of a turn of the loop before the switch: the flag, the payload, and what
follows the frame.  An `int` holds every `uint32`, so the size is not negative. -/
def takeFrame (body : Bytes) : Except FramingErr (UInt8 × Bytes × Bytes) :=
  if body.length < frameHeaderSize then .error .headerTruncated
  else
    let size := (beUInt32 ((body.drop 1).take 4)).toNat
    let rest := body.drop frameHeaderSize
    if rest.length < size then .error .payloadTruncated
    else .ok (body.headD 0, rest.take size, rest.drop size)

/-- The loop of `parseDataFrames`.  A frame is not empty, so the length of the body is
enough fuel. -/
def parseLoop : Nat → Bytes → Bytes → Bool → Except FramingErr (Bytes × Bool)
  | 0, _, out, framed => .ok (out, framed)
  | fuel + 1, body, out, framed =>
    if body = [] then .ok (out, framed)
    else
      match takeFrame body with
      | .error e => .error e
      | .ok (flag, payload, rest) =>
        if flag = dataFrameFlag then parseLoop fuel rest (out ++ payload) true
        else if flag = trailerFrameFlag then parseLoop fuel rest out true
        else .error (.unsupportedFlag flag)

def parseDataFrames (body : Bytes) : Except FramingErr (Bytes × Bool) :=
  match parseLoop body.length body [] false with
  | .error e => .error e
  | .ok (out, framed) => if framed then .ok (out, true) else .ok ([], false)

/-- The payload, and whether the body was framed. -/
def parseRequestPayload (body : Bytes) (strict : Bool) : Except FramingErr (Bytes × Bool) :=
  if body.length < frameHeaderSize then .ok (body, false)
  else
    match parseDataFrames body with
    | .error e => if strict then .error e else .ok (body, false)
    | .ok (payload, framed) => if framed then .ok (payload, true) else .ok (body, false)

/-- The headers that `handle` looks at before it parses the body. -/
structure RequestHeaders where
  contentType : Bytes
  xGrpcWeb : Bytes
  deriving DecidableEq, Repr

def isGRPCWebRequest (r : RequestHeaders) : Bool :=
  (ascii "application/grpc-web").isPrefixOf (toLower r.contentType)

/-- The framing step of `handle`: the body that goes to the plugins and the handler, and
whether the response is framed.  An error is answered with status 400. -/
def framingStep (r : RequestHeaders) (body : Bytes) : Except FramingErr (Bytes × Bool) :=
  let strictFraming := r.xGrpcWeb = ascii "1"
  let framed := isGRPCWebRequest r || strictFraming
  if framed then
    match parseRequestPayload body strictFraming with
    | .error e => .error e
    | .ok (payload, _) => .ok (payload, framed)
  else .ok (body, framed)

/-! ### Writing -/

def appendFrame (dst : Bytes) (flag : UInt8) (payload : Bytes) : Bytes :=
  dst ++ [flag] ++ putUInt32 (UInt32.ofNat payload.length) ++ payload

def appendDataFrame (dst payload : Bytes) : Bytes := appendFrame dst dataFrameFlag payload

def upperHex (n : Nat) : UInt8 := UInt8.ofNat (if n < 10 then 0x30 + n else 0x41 + (n - 10))

def grpcWebSafeByte (c : UInt8) : Bool := (0x20 ≤ c ∧ c ≤ 0x24) ∨ (0x26 ≤ c ∧ c ≤ 0x7e)

/-- `encodeGRPCMessage`; a message of safe bytes is left as it is by the loop as well. -/
def encodeGRPCMessage (s : Bytes) : Bytes :=
  s.flatMap fun c =>
    if grpcWebSafeByte c then [c] else [0x25, upperHex (c.toNat / 16), upperHex (c.toNat % 16)]

def trailerBlock (status : Int) (message : Bytes) : Bytes :=
  ascii "grpc-status: " ++ decimal status ++ [0x0d, 0x0a] ++
    if message = [] then []
    else ascii "grpc-message: " ++ encodeGRPCMessage message ++ [0x0d, 0x0a]

def appendTrailerFrame (dst : Bytes) (status : Int) (message : Bytes) : Bytes :=
  appendFrame dst trailerFrameFlag (trailerBlock status message)

/-! ### Frames -/

inductive Frame
  | data (payload : Bytes)
  | trailer (payload : Bytes)
  deriving DecidableEq, Repr

namespace Frame

def flag : Frame → UInt8
  | data _ => dataFrameFlag
  | trailer _ => trailerFrameFlag

def payload : Frame → Bytes
  | data payload => payload
  | trailer payload => payload

def dataOf : Frame → Bytes
  | data payload => payload
  | trailer _ => []

/-- The length fits the four bytes of the header. -/
def Short (frame : Frame) : Prop := frame.payload.length < 2 ^ 32

def bytes (frame : Frame) : Bytes := appendFrame [] frame.flag frame.payload

end Frame

/-- `body` is one frame after another, and at least one. -/
def Framing (body : Bytes) : Prop :=
  ∃ frames : List Frame, frames ≠ [] ∧ (∀ frame ∈ frames, frame.Short) ∧
    body = frames.flatMap Frame.bytes

/-- The two writers put frames behind what is there. -/
theorem appendDataFrame_eq (dst payload : Bytes) :
    appendDataFrame dst payload = dst ++ (Frame.data payload).bytes := by
  simp [appendDataFrame, Frame.bytes, appendFrame, Frame.flag, Frame.payload]

theorem appendTrailerFrame_eq (dst : Bytes) (status : Int) (message : Bytes) :
    appendTrailerFrame dst status message =
      dst ++ (Frame.trailer (trailerBlock status message)).bytes := by
  simp [appendTrailerFrame, Frame.bytes, appendFrame, Frame.flag, Frame.payload]

/-! ### The loop -/

theorem header_append (flag : UInt8) (payload rest : Bytes) : appendFrame [] flag payload ++ rest =
      flag :: (putUInt32 (UInt32.ofNat payload.length) ++ (payload ++ rest)) := by
  simp [appendFrame]

variable {body payload : Bytes}

/-- **What a turn takes off the body is a frame, whatever its flag.** -/
theorem takeFrame_eq_ok {rest : Bytes} {flag : UInt8} : takeFrame body = .ok (flag, payload, rest) ↔
      payload.length < 2 ^ 32 ∧ body = appendFrame [] flag payload ++ rest := by
  constructor
  · intro h
    unfold takeFrame at h
    split at h
    · cases h
    rename_i hlen
    dsimp only at h
    split at h
    · cases h
    rename_i hsize
    cases body with
    | nil => exact absurd (by decide) hlen
    | cons first tail =>
      cases h
      have hfour : (tail.take 4).length = 4 := by simpa [frameHeaderSize] using hlen
      have htail : (first :: tail).drop frameHeaderSize = tail.drop 4 := rfl
      have hhead : ((first :: tail).drop 1).take 4 = tail.take 4 := rfl
      rw [htail, hhead] at hsize ⊢
      have hpay : ((tail.drop 4).take (beUInt32 (tail.take 4)).toNat).length =
          (beUInt32 (tail.take 4)).toNat := List.length_take_of_le (Nat.le_of_not_lt hsize)
      refine ⟨by rw [hpay]; exact UInt32.toNat_lt _, ?_⟩
      rw [header_append, hpay, UInt32.ofNat_toNat, putUInt32_beUInt32 hfour,
        List.take_append_drop, List.take_append_drop]
      rfl
  · rintro ⟨hshort, rfl⟩
    have hraw : (UInt32.ofNat payload.length).toNat = payload.length :=
      UInt32.toNat_ofNat_of_lt' hshort
    rw [header_append]
    have hheader : (putUInt32 (UInt32.ofNat payload.length)).length = 4 := rfl
    have htake : ((flag :: (putUInt32 (UInt32.ofNat payload.length) ++ (payload ++ rest))).drop
        1).take 4 = putUInt32 (UInt32.ofNat payload.length) := rfl
    have hdrop : (flag :: (putUInt32 (UInt32.ofNat payload.length) ++ (payload ++ rest))).drop
        frameHeaderSize = payload ++ rest := rfl
    unfold takeFrame
    rw [if_neg (by simp [frameHeaderSize, hheader])]
    rw [htake, hdrop, beUInt32_putUInt32, hraw, if_neg (by simp), List.take_left, List.drop_left]
    rfl

/-- Frames are taken one by one. -/
theorem parseLoop_concat : ∀ (frames : List Frame), (∀ frame ∈ frames, frame.Short) →
    ∀ (fuel : Nat) (out : Bytes) (framed : Bool), frames.length ≤ fuel →
      parseLoop fuel (frames.flatMap Frame.bytes) out framed =
        .ok (out ++ frames.flatMap Frame.dataOf, framed || !frames.isEmpty) := by
  intro frames
  induction frames with
  | nil =>
    intro _ fuel out framed _
    cases fuel with
    | zero | succ fuel => simp [parseLoop]
  | cons frame frames ih =>
    intro hshort fuel out framed hfuel
    cases fuel with
    | zero => exact absurd hfuel (Nat.not_succ_le_zero _)
    | succ fuel =>
      have htake : takeFrame (frame.bytes ++ frames.flatMap Frame.bytes) =
          .ok (frame.flag, frame.payload, frames.flatMap Frame.bytes) :=
        takeFrame_eq_ok.mpr ⟨hshort frame List.mem_cons_self, rfl⟩
      have hrest := ih (fun f hf => hshort f (List.mem_cons_of_mem frame hf)) fuel
      rw [List.flatMap_cons, parseLoop, htake]
      cases frame with
      | data payload =>
        show parseLoop fuel _ (out ++ payload) true = _
        rw [hrest _ _ (Nat.le_of_succ_le_succ hfuel)]
        simp [Frame.dataOf]
      | trailer payload =>
        show parseLoop fuel _ out true = _
        rw [hrest _ _ (Nat.le_of_succ_le_succ hfuel)]
        simp [Frame.dataOf]

/-- A body that the loop accepts is made of frames. -/
theorem concat_of_parseLoop {fuel : Nat} {out : Bytes} {framed ok : Bool}
    (hfuel : body.length ≤ fuel) (h : parseLoop fuel body out framed = .ok (payload, ok)) :
    ∃ frames : List Frame, (∀ frame ∈ frames, frame.Short) ∧ body = frames.flatMap Frame.bytes := by
  induction fuel generalizing body out framed with
  | zero =>
    obtain rfl : body = [] := List.length_eq_zero_iff.mp (Nat.le_zero.mp hfuel)
    exact ⟨[], by simp, rfl⟩
  | succ fuel ih =>
    rw [parseLoop] at h
    split at h
    · rename_i hnil
      exact ⟨[], by simp, hnil⟩
    split at h
    · cases h
    rename_i flag first rest htake
    obtain ⟨hshort, rfl⟩ := takeFrame_eq_ok.mp htake
    have hless : rest.length ≤ fuel := by
      rw [header_append] at hfuel
      simp only [List.length_cons, List.length_append] at hfuel
      omega
    -- the frame with the flag that was read, in front of the others
    have hcons : ∀ frame : Frame, frame.flag = flag → frame.payload = first →
        (∃ frames : List Frame, (∀ f ∈ frames, f.Short) ∧ rest = frames.flatMap Frame.bytes) →
        ∃ frames : List Frame, (∀ f ∈ frames, f.Short) ∧
          appendFrame [] flag first ++ rest = frames.flatMap Frame.bytes := by
      rintro frame rfl rfl ⟨frames, hall, rfl⟩
      refine ⟨frame :: frames, ?_, rfl⟩
      intro f hf
      rcases List.mem_cons.mp hf with rfl | hf
      · exact hshort
      · exact hall f hf
    split at h
    · rename_i hflag
      exact hcons (.data first) hflag.symm rfl (ih hless h)
    split at h
    · rename_i hflag
      exact hcons (.trailer first) hflag.symm rfl (ih hless h)
    · cases h

/-! ### The parser -/

theorem length_le_concat (frames : List Frame) :
    frames.length * frameHeaderSize ≤ (frames.flatMap Frame.bytes).length := by
  induction frames with
  | nil => exact Nat.zero_le _
  | cons frame frames ih =>
    have hhead : frameHeaderSize ≤ frame.bytes.length := by
      simp [Frame.bytes, appendFrame, frameHeaderSize, putUInt32]
    rw [List.flatMap_cons, List.length_append, List.length_cons, Nat.succ_mul]
    omega

theorem parseRequestPayload_concat {frames : List Frame} (hne : frames ≠ [])
    (hshort : ∀ frame ∈ frames, frame.Short) (strict : Bool) :
    parseRequestPayload (frames.flatMap Frame.bytes) strict =
      .ok (frames.flatMap Frame.dataOf, true) := by
  have hlen : frames.length * 5 ≤ (frames.flatMap Frame.bytes).length := length_le_concat frames
  have hpos : 0 < frames.length := List.length_pos_iff.mpr hne
  have hsize : frameHeaderSize = 5 := rfl
  have hloop := parseLoop_concat frames hshort (frames.flatMap Frame.bytes).length [] false
    (by omega)
  have hempty : frames.isEmpty = false := by simpa using hne
  unfold parseRequestPayload parseDataFrames
  rw [if_neg (by omega), hloop, hempty]
  rfl

theorem framing_of_parseLoop {result : Bytes × Bool} (hlong : ¬ body.length < frameHeaderSize)
    (h : parseLoop body.length body [] false = .ok result) : Framing body := by
  obtain ⟨frames, hshort, hbody⟩ := concat_of_parseLoop le_rfl h
  refine ⟨frames, ?_, hshort, hbody⟩
  rintro rfl
  rw [hbody] at hlong
  exact hlong (by decide)

/-- Only a framing is reported as one. -/
theorem framing_of_parse {strict : Bool} (h : parseRequestPayload body strict = .ok (payload, true)) :
    Framing body := by
  unfold parseRequestPayload at h
  split at h
  · cases h
  rename_i hlong
  cases hparse : parseLoop body.length body [] false with
  | error e =>
    rw [parseDataFrames, hparse] at h
    dsimp only at h
    split at h <;> cases h
  | ok result => exact framing_of_parseLoop hlong hparse

/-- Without `strict` the answer is the data of a framing or the body itself. -/
theorem parse_lenient (body : Bytes) : parseRequestPayload body false = .ok (body, false) ∨
      ∃ payload, parseRequestPayload body false = .ok (payload, true) := by
  unfold parseRequestPayload
  split
  · exact .inl rfl
  split
  · exact .inl rfl
  split
  · exact .inr ⟨_, rfl⟩
  · exact .inl rfl

/-- **The parser of a request body.**  One frame after another is reported as framed and
gives the data in order, in both modes.  Without `strict` there is no error, and a body
that is not a framing is handed on as it is.  Nothing else is ever reported as
framed. -/
theorem parseRequestPayload_framing :
    (∀ frames : List Frame, frames ≠ [] → (∀ frame ∈ frames, frame.Short) → ∀ strict,
      parseRequestPayload (frames.flatMap Frame.bytes) strict =
        .ok (frames.flatMap Frame.dataOf, true)) ∧
    (∀ body, ∃ result, parseRequestPayload body false = .ok result) ∧
    (∀ body, ¬ Framing body → parseRequestPayload body false = .ok (body, false)) ∧
    (∀ body strict payload, parseRequestPayload body strict = .ok (payload, true) →
      Framing body) := by
  refine ⟨?_, ?_, ?_, ?_⟩
  · intro frames hne hshort strict
    exact parseRequestPayload_concat hne hshort strict
  · intro body
    rcases parse_lenient body with h | ⟨payload, h⟩ <;> exact ⟨_, h⟩
  · intro body hnot
    rcases parse_lenient body with h | ⟨payload, h⟩
    · exact h
    · exact absurd (framing_of_parse h) hnot
  · intro body strict payload h
    exact framing_of_parse h

/-- Two data frames around a trailer. -/
def threeFrames : List Frame :=
  [.data [0x68, 0x69], .trailer (trailerBlock 0 (ascii "ok")), .data [0x21]]

theorem parseRequestPayload_framing_threeFrames :
    parseRequestPayload
        (appendDataFrame (appendTrailerFrame (appendDataFrame [] [0x68, 0x69]) 0 (ascii "ok"))
          [0x21]) true =
      .ok ([0x68, 0x69, 0x21], true) ∧
      parseRequestPayload [1, 2, 3, 4, 5, 6] false = .ok ([1, 2, 3, 4, 5, 6], false) := by
  have hshort : ∀ frame ∈ threeFrames, frame.Short := by
    simp only [Frame.Short]
    decide
  refine ⟨?_, by decide⟩
  rw [appendDataFrame_eq]
  exact parseRequestPayload_framing.1 threeFrames (by decide) hshort true

/-! ### Strict requests -/

/-- A strict body as long as a header is a framing, or it is an error. -/
theorem parse_strict (hlong : frameHeaderSize ≤ body.length) :
    (∃ e, parseRequestPayload body true = .error e) ∨ Framing body := by
  unfold parseRequestPayload
  rw [if_neg (Nat.not_lt.mpr hlong)]
  cases hparse : parseLoop body.length body [] false with
  | error e =>
    refine .inl ⟨e, ?_⟩
    rw [parseDataFrames, hparse]
    rfl
  | ok result => exact .inr (framing_of_parseLoop (Nat.not_lt.mpr hlong) hparse)

theorem framingStep_strict {r : RequestHeaders} (hstrict : r.xGrpcWeb = ascii "1") (body : Bytes) :
    framingStep r body = match parseRequestPayload body true with
      | .error e => .error e
      | .ok (payload, _) => .ok (payload, true) := by
  have hframed : (isGRPCWebRequest r || decide (r.xGrpcWeb = ascii "1")) = true := by
    rw [decide_eq_true hstrict, Bool.or_true]
  unfold framingStep
  dsimp only
  rw [hframed, if_pos rfl, decide_eq_true hstrict]

theorem not_framing_of_short (h : body.length < frameHeaderSize) : ¬ Framing body := by
  rintro ⟨frames, hne, -, rfl⟩
  have hpos : 0 < frames.length := List.length_pos_iff.mpr hne
  have hlen : frames.length * 5 ≤ (frames.flatMap Frame.bytes).length := length_le_concat frames
  have hsize : frameHeaderSize = 5 := rfl
  omega

/-- **A strict request is framed, or it is refused**, exactly if its body has room for a
header: only then is a body that is no framing an error, and only then does the handler get
the data of frames.  A shorter body is handed on as it is. -/
theorem strict_request_framed (body : Bytes) :
    (((∃ e, parseRequestPayload body true = .error e) ↔ ¬ Framing body) ↔
      frameHeaderSize ≤ body.length) ∧
    ((∀ r : RequestHeaders, r.xGrpcWeb = ascii "1" → ∀ payload framed,
      framingStep r body = .ok (payload, framed) →
        ∃ frames : List Frame, frames ≠ [] ∧ (∀ frame ∈ frames, frame.Short) ∧
          body = frames.flatMap Frame.bytes ∧ payload = frames.flatMap Frame.dataOf) ↔
      frameHeaderSize ≤ body.length) := by
  -- a body without room for a header passes, and is no framing
  have hshort : body.length < frameHeaderSize →
      parseRequestPayload body true = .ok (body, false) := fun hlt => if_pos hlt
  refine ⟨⟨?_, ?_⟩, ?_, ?_⟩
  · intro h
    by_contra hlt
    rw [not_le] at hlt
    obtain ⟨e, he⟩ := h.mpr (not_framing_of_short hlt)
    rw [hshort hlt] at he
    cases he
  · intro hlong
    constructor
    · rintro ⟨e, he⟩ ⟨frames, hne, hframes, rfl⟩
      rw [parseRequestPayload_concat hne hframes] at he
      cases he
    · intro hnot
      exact (parse_strict hlong).resolve_right hnot
  · intro h
    by_contra hlt
    rw [not_le] at hlt
    obtain ⟨frames, hne, hframes, hbody, -⟩ := h ⟨[], ascii "1"⟩ rfl body true
      (by rw [framingStep_strict rfl, hshort hlt])
    exact not_framing_of_short hlt ⟨frames, hne, hframes, hbody⟩
  · intro hlong r hstrict payload framed hstep
    rw [framingStep_strict hstrict] at hstep
    rcases parse_strict hlong with ⟨e, he⟩ | ⟨frames, hne, hframes, rfl⟩
    · rw [he] at hstep
      cases hstep
    · rw [parseRequestPayload_concat hne hframes] at hstep
      cases hstep
      exact ⟨frames, hne, hframes, rfl, rfl⟩

/-- One byte is no frame, and a strict request hands it to the handler. -/
theorem parseRequestPayload_short_strict :
    ¬ Framing [0x68] ∧ parseRequestPayload [0x68] true = .ok ([0x68], false) ∧
      framingStep ⟨ascii "application/grpc-web", ascii "1"⟩ [0x68] = .ok ([0x68], true) :=
  ⟨not_framing_of_short (by decide), by decide, by decide⟩

end SharkSocket.GrpcWeb
