import SharkSocket.Core

/-!
# `coap/message.go`: the CoAP codec

`parse` and `marshal` as the source computes them, byte by byte.  The decoder's
loop keeps an offset into the datagram; here it keeps the bytes from that
offset on, and `break` is the branch that returns the options read so far.

A map of options is an `ExtTreeMap`; its `keys` come in increasing order, which
is what `sortedOptionNums` collects and sorts.
-/

namespace SharkSocket.Coap

open Std (ExtTreeMap)

def version : UInt8 := 1

def typeCON : UInt8 := 0
def typeNON : UInt8 := 1
def typeACK : UInt8 := 2
def typeRST : UInt8 := 3

def codeEmpty : UInt8 := 0
def codeGet : UInt8 := 1
def codePost : UInt8 := 2
def codePut : UInt8 := 3
def codeDelete : UInt8 := 4
def codeCreated : UInt8 := 65
def codeDeleted : UInt8 := 66
def codeChanged : UInt8 := 68
def codeContent : UInt8 := 69
def codeBadOption : UInt8 := 130
def codeRequestEntityTooLarge : UInt8 := 141
def codeInternalServerError : UInt8 := 160

def observeOption : UInt16 := 6

def errInvalidMessage : Err := .other "invalid coap message"
def errInvalidVersion : Err := .other "invalid coap version"
def errTokenTooLong : Err := .other "coap token too long"

/-- `map[uint16][]byte`; `nil` and the empty map are both `∅`. -/
abbrev Options := ExtTreeMap UInt16 Bytes

structure Message where
  type : UInt8
  code : UInt8
  messageID : UInt16
  token : Bytes
  options : Options
  payload : Bytes
  deriving DecidableEq

/-! ### `binary.BigEndian` -/

def uint16BE (hi lo : UInt8) : UInt16 := lo.toUInt16 ||| (hi.toUInt16 <<< 8)

def putUint16BE (v : UInt16) : Bytes := [(v >>> 8).toUInt8, v.toUInt8]

/-! ### Decoding -/

def decodeOptionHeader : Bytes → UInt32 × UInt32 × Nat
  | [] => (0, 0, 0)
  | b :: _ => ((b >>> 4).toUInt32, (b &&& 0x0f).toUInt32, 1)

def readOptionExtended (data : Bytes) (nibble : UInt32) : UInt32 × Nat :=
  if nibble < 13 then (nibble, 0)
  else if nibble = 13 then
    match data with
    | b :: _ => (b.toUInt32 + 13, 1)
    | [] => (0, 0)
  else if nibble = 14 then
    match data with
    | hi :: lo :: _ => ((uint16BE hi lo).toUInt32 + 269, 2)
    | _ => (0, 0)
  else (0, 0)

/-- One option at the head of `data`: its number, its value and the bytes after
it, or `none` where the loop of `parseOptions` breaks. -/
def parseOption (data : Bytes) (prevNum : UInt16) : Option (UInt16 × Bytes × Bytes) :=
  let (delta, length, advance) := decodeOptionHeader data
  if advance = 0 then none
  else if 14 < delta ∨ 14 < length then none
  else
    let rest := data.drop advance
    let (deltaExtended, deltaBytes) := readOptionExtended rest delta
    let rest := rest.drop deltaBytes
    let (lengthExtended, lengthBytes) := readOptionExtended rest length
    let rest := rest.drop lengthBytes
    if (65535 : UInt32) - prevNum.toUInt32 < deltaExtended then none
    else if rest.length < lengthExtended.toNat then none
    else some (prevNum + deltaExtended.toUInt16, rest.take lengthExtended.toNat,
      rest.drop lengthExtended.toNat)

theorem parseOption_length {data : Bytes} {prevNum num : UInt16} {val rest : Bytes}
    (h : parseOption data prevNum = some (num, val, rest)) : rest.length < data.length := by
  cases data with
  | nil => simp [parseOption, decodeOptionHeader] at h
  | cons b tail =>
    simp only [parseOption, decodeOptionHeader, one_ne_zero, if_false, List.drop_succ_cons,
      List.drop_zero] at h
    split at h
    · cases h
    split at h
    · cases h
    split at h
    · cases h
    simp only [Option.some.injEq, Prod.mk.injEq] at h
    rw [← h.2.2]
    simp only [List.length_drop, List.length_cons]
    omega

/-- The loop of `parseOptions`. -/
def parseOptionsLoop (data : Bytes) (prevNum : UInt16) (options : Options) : Options × Bytes :=
  match data with
  | [] => (options, [])
  | b :: tail =>
    if b = 0xff then (options, tail)
    else
      match _h : parseOption (b :: tail) prevNum with
      | none => (options, [])
      | some (num, val, rest) => parseOptionsLoop rest num (options.insert num val)
  termination_by data.length
  decreasing_by exact parseOption_length _h

def parseOptions (data : Bytes) : Options × Bytes := parseOptionsLoop data 0 ∅

def parse : Bytes → Except Err Message
  | first :: code :: hi :: lo :: rest =>
    if first >>> 6 ≠ version then .error errInvalidVersion
    else
      let tokenLen := (first &&& 0x0f).toNat
      if 8 < tokenLen then .error errTokenTooLong
      else if rest.length < tokenLen then .error errInvalidMessage
      else .ok {
        type := (first >>> 4) &&& 0x03
        code := code
        messageID := uint16BE hi lo
        token := rest.take tokenLen
        options := (parseOptions (rest.drop tokenLen)).1
        payload := (parseOptions (rest.drop tokenLen)).2 }
  | _ => .error errInvalidMessage

/-! ### Encoding -/

def sortedOptionNums (opts : Options) : List UInt16 := opts.keys

def encodeExtendedField (buf : Bytes) (v nibble : UInt32) : Except Err Bytes :=
  if nibble ≤ 12 then .ok buf
  else if nibble = 13 then
    if v < 13 ∨ 268 < v then
      .error (.wrap s!"invalid coap message: option extended value {v} out of range" errInvalidMessage)
    else .ok (buf ++ [(v - 13).toUInt8])
  else if nibble = 14 then
    if v < 269 ∨ 65535 < v then
      .error (.wrap s!"invalid coap message: option extended value {v} out of range" errInvalidMessage)
    else .ok (buf ++ putUint16BE (v - 269).toUInt16)
  else .error (.wrap s!"invalid coap message: invalid option extended nibble {nibble}" errInvalidMessage)

def optionNibble (v : UInt16) : UInt8 :=
  if v < 13 then v.toUInt8 else if v < 269 then 13 else 14

def encodeOptionHeader (delta length : UInt16) : Except Err Bytes := do
  let d := optionNibble delta
  let l := optionNibble length
  let header ← encodeExtendedField [(d <<< 4) ||| l] delta.toUInt32 d.toUInt32
  encodeExtendedField header length.toUInt32 l.toUInt32

def encodeOption (delta : UInt16) (value : Bytes) : Except Err Bytes := do
  let header ← encodeOptionHeader delta (UInt16.ofNat value.length)
  return header ++ value

/-- The loop of `Marshal` over the sorted option numbers. -/
def encodeOptions (opts : Options) : List UInt16 → UInt16 → Except Err Bytes
  | [], _ => .ok []
  | num :: nums, prevNum => do
    let enc ← encodeOption (num - prevNum) (opts[num]?.getD [])
    let rest ← encodeOptions opts nums num
    return enc ++ rest

def marshalOptions (opts : Options) : Except Err Bytes :=
  if 0 < opts.size then encodeOptions opts (sortedOptionNums opts) 0 else .ok []

namespace Message

def marshal (m : Message) : Except Err Bytes :=
  if 8 < m.token.length then .error errTokenTooLong
  else if typeRST < m.type then
    .error (.wrap s!"invalid coap message: type {m.type}" errInvalidMessage)
  else do
    let first := (version <<< 6) ||| ((m.type &&& 0x03) <<< 4) ||| UInt8.ofNat m.token.length
    let options ← marshalOptions m.options
    return first :: m.code :: putUint16BE m.messageID ++ m.token ++ options ++
      (if 0 < m.payload.length then 0xff :: m.payload else [])

end Message

def ack (req : Message) (code : UInt8) (payload : Bytes) : Message where
  type := typeACK
  code := code
  messageID := req.messageID
  token := req.token
  options := ∅
  payload := payload

end SharkSocket.Coap
