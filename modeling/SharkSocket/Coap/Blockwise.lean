import SharkSocket.Coap.Message

/-!
# `coap/blockwise.go`: Block2 responses

The option value is the triple NUM, M, SZX packed into at most three bytes.
`negotiateBlock2` turns the peer's option into a byte offset and a block size,
and `blockFor` cuts the body there.
-/

namespace SharkSocket.Coap

def block2Option : UInt16 := 23
def block1Option : UInt16 := 27

def errInvalidBlockOption : Err := .other "invalid coap block option"

def minBlockSizeExp : UInt8 := 0
def maxBlockSizeExp : UInt8 := 6

structure BlockOption where
  num : UInt32
  more : Bool
  sizeExp : UInt8
  deriving DecidableEq, Repr

namespace BlockOption

def size (b : BlockOption) : Nat := 1 <<< (b.sizeExp + 4).toNat

/-- The loop that skips leading zero bytes and stops at the last one. -/
def skipZeros : Bytes → Bytes
  | [] => []
  | [b] => [b]
  | b :: c :: rest => if b = 0 then skipZeros (c :: rest) else b :: c :: rest

def raw (b : BlockOption) : UInt32 :=
  let raw := (b.num <<< 4) ||| b.sizeExp.toUInt32
  if b.more then raw ||| 0x08 else raw

def marshal (b : BlockOption) : Bytes :=
  if b.raw = 0 then []
  else skipZeros [(b.raw >>> 16).toUInt8, (b.raw >>> 8).toUInt8, b.raw.toUInt8]

end BlockOption

def parseBlockOption (v : Bytes) : Except Err BlockOption :=
  let n := v.length
  if 3 < n then .error (.wrap s!"invalid coap block option: {n} value bytes" errInvalidBlockOption)
  else
    let raw := v.foldl (fun (raw : UInt32) (c : UInt8) => (raw <<< 8) ||| c.toUInt32) 0
    let opt : BlockOption := ⟨raw >>> 4, raw &&& 0x08 ≠ 0, (raw &&& 0x07).toUInt8⟩
    let szx := opt.sizeExp
    if maxBlockSizeExp < szx then
      .error (.wrap s!"invalid coap block option: reserved SZX {szx}" errInvalidBlockOption)
    else .ok opt

def sizeExp (size : Nat) : UInt8 :=
  let exps := (List.range (maxBlockSizeExp.toNat + 1)).drop minBlockSizeExp.toNat
  match exps.find? (fun e => 1 <<< (e + 4) = size) with
  | some e => UInt8.ofNat e
  | none => maxBlockSizeExp

/-- The chunk at `num * size` and whether anything follows it; `none` when the
offset is at or past the end of the body. -/
def sliceBlock (body : Bytes) (num : UInt32) (size : Nat) : Option (Bytes × Bool) :=
  let offset := num.toNat * size
  if body.length ≤ offset then none
  else if body.length ≤ offset + size then some (body.drop offset, false)
  else some ((body.drop offset).take size, true)

structure BlockRequest where
  present : Bool
  offset : Nat
  size : Nat
  deriving DecidableEq, Repr

def negotiateBlock2 (values : Options) (maxSize : Nat) : Except Err BlockRequest :=
  match values[block2Option]? with
  | none => .ok ⟨false, 0, maxSize⟩
  | some v =>
    match parseBlockOption v with
    | .error e => .error e
    | .ok opt => .ok ⟨true, opt.num.toNat * opt.size, min opt.size maxSize⟩

def blockFor (body : Bytes) (req : BlockRequest) : Option (Bytes × Option BlockOption) :=
  if req.present = false ∧ body.length ≤ req.size then some (body, none)
  else
    let num := UInt32.ofNat (req.offset / req.size)
    match sliceBlock body num req.size with
    | none => none
    | some (chunk, more) => some (chunk, some ⟨num, more, sizeExp req.size⟩)

end SharkSocket.Coap
