import SharkSocket.Core
import SharkSocket.Lib.BigEndian
import SharkSocket.Lib.Stream

/-!
# `tcp/framer.go`: the four framers

`readFrame` is generic in the reader, as the source's `ReadFrame` is in
`io.Reader`; the length-prefix and line framers have a second path for a
`*bufio.Reader`.  `writeFrame` gives the `Write` calls a framer makes on its
writer.

A loop of the source that ends because a line outgrows its limit has the limit as
its fuel.
-/

namespace SharkSocket.Tcp

open SharkSocket.Lib

/-- An error of the reader, `core.ErrFrameTooLarge` with the two numbers of its
text, or one of the two errors of a fixed size. -/
inductive FrameErr
  | read (e : ReadErr)
  | frameTooLarge (len max : Nat)
  | sizeNotPositive
  | payloadSize (len : Nat) (size : Int)
  deriving DecidableEq, Repr

/-- What `errors.Is` sees of an error. -/
inductive FrameErrKind
  | read (e : ReadErr)
  | frameTooLarge
  | other
  deriving DecidableEq, Repr

def FrameErr.kind : FrameErr → FrameErrKind
  | .read e => .read e
  | .frameTooLarge _ _ => .frameTooLarge
  | .sizeNotPositive => .other
  | .payloadSize _ _ => .other

/-- The `Write` calls that `WriteFrame` makes, or its error. -/
abbrev WriteFrame := Bytes → Except FrameErr (List Bytes)

def defaultMaxFrameBytes : Nat := 1024 * 1024

/-- `MaxFrameBytes`, or the default if it is not positive. -/
def limitOf (maxFrameBytes : Int) (default : Nat) : Nat :=
  if 0 < maxFrameBytes then maxFrameBytes.toNat else default

variable {σ : Type*}

/-- An error of `io.ReadFull` as it is. -/
def fullFrame (x : Except ReadErr Bytes × σ) : Except FrameErr Bytes × σ :=
  (x.1.mapError .read, x.2)

/-! ### `LengthPrefixFramer` -/

structure LengthPrefixFramer where
  maxFrameBytes : Int
  deriving DecidableEq, Repr

namespace LengthPrefixFramer

variable (f : LengthPrefixFramer)

def maxBytes : Nat := limitOf f.maxFrameBytes defaultMaxFrameBytes

/-- The check on the length in the header, made on `uint32` values. -/
def checkHeader (header : Bytes) : Except FrameErr Nat :=
  let raw := beUInt32 header
  if UInt32.ofNat f.maxBytes < raw then .error (.frameTooLarge raw.toNat f.maxBytes)
  else .ok raw.toNat

def readFrame (R : Reader σ UInt8) (r : σ) : Except FrameErr Bytes × σ :=
  match R.readFull 4 r with
  | (.error e, r) => (.error (.read e), r)
  | (.ok header, r) =>
    match f.checkHeader header with
    | .error e => (.error e, r)
    | .ok raw => fullFrame (R.readFull raw r)

def readFrameBuffered (br : BufReader UInt8) : Except FrameErr Bytes × BufReader UInt8 :=
  match br.peek 4 with
  | (.error e, br) =>
    -- `Peek` has one error for the end of the stream, `ReadFull` has two
    if e = .eof ∧ 0 < br.buf.length then (.error (.read .unexpectedEOF), br)
    else (.error (.read e), br)
  | (.ok header, br) =>
    match f.checkHeader header with
    | .error e => (.error e, br)
    | .ok raw =>
      match br.discard 4 with
      | (.error e, br) => (.error (.read e), br)
      | (.ok _, br) => fullFrame (BufReader.reader.readFull raw br)

def writeFrame (payload : Bytes) : Except FrameErr (List Bytes) :=
  if f.maxBytes < payload.length then .error (.frameTooLarge payload.length f.maxBytes)
  else .ok [putUInt32 (UInt32.ofNat payload.length), payload]

end LengthPrefixFramer

/-! ### `LineFramer` -/

structure LineFramer where
  maxFrameBytes : Int
  delimiterByte : UInt8
  deriving DecidableEq, Repr

namespace LineFramer

variable (f : LineFramer)

def delimiter : UInt8 := if f.delimiterByte = 0 then 0x0A else f.delimiterByte

def maxBytes : Nat := limitOf f.maxFrameBytes defaultMaxFrameBytes

/-- Byte by byte; the delimiter counts as soon as it is read. -/
def plainLoop (R : Reader σ UInt8) (d : UInt8) (max : Nat) :
    Nat → Bytes → σ → Except FrameErr Bytes × σ
  | 0, line, r => (.error (.frameTooLarge line.length max), r)
  | fuel + 1, line, r =>
    match R.readFull 1 r with
    | (.error e, r) => (.error (.read e), r)
    | (.ok b, r) =>
      if max < (line ++ b).length then (.error (.frameTooLarge (line ++ b).length max), r)
      else if b = [d] then (.ok (line ++ b).dropLast, r)
      else plainLoop R d max fuel (line ++ b) r

def readFrame (R : Reader σ UInt8) (r : σ) : Except FrameErr Bytes × σ :=
  plainLoop R f.delimiter f.maxBytes (f.maxBytes + 1) [] r

/-- Slice by slice; `out` holds the slices that filled the buffer. -/
def bufferedLoop (d : UInt8) (max : Nat) :
    Nat → Bytes → BufReader UInt8 → Except FrameErr Bytes × BufReader UInt8
  | 0, out, br => (.error (.frameTooLarge out.length max), br)
  | fuel + 1, out, br =>
    match br.readSlice d with
    | ((frag, none), br) =>
      let n := frag.length - 1
      if out.length = 0 then
        if max < n then (.error (.frameTooLarge n max), br) else (.ok (frag.take n), br)
      else if max < out.length + n then (.error (.frameTooLarge (out.length + n) max), br)
      else (.ok (out ++ frag.take n), br)
    | ((frag, some .bufferFull), br) =>
      if max < (out ++ frag).length then (.error (.frameTooLarge (out ++ frag).length max), br)
      else bufferedLoop d max fuel (out ++ frag) br
    | ((_, some e), br) => (.error (.read e), br)

def readFrameBuffered (br : BufReader UInt8) : Except FrameErr Bytes × BufReader UInt8 :=
  bufferedLoop f.delimiter f.maxBytes (f.maxBytes + 1) [] br

def writeFrame (payload : Bytes) : Except FrameErr (List Bytes) :=
  if f.maxBytes < payload.length + 1 then .error (.frameTooLarge (payload.length + 1) f.maxBytes)
  else .ok [payload, [f.delimiter]]

end LineFramer

/-! ### `FixedSizeFramer` and `RawFramer` -/

structure FixedSizeFramer where
  size : Int
  deriving DecidableEq, Repr

namespace FixedSizeFramer

def readFrame (f : FixedSizeFramer) (R : Reader σ UInt8) (r : σ) : Except FrameErr Bytes × σ :=
  if f.size ≤ 0 then (.error .sizeNotPositive, r) else fullFrame (R.readFull f.size.toNat r)

def writeFrame (f : FixedSizeFramer) (payload : Bytes) : Except FrameErr (List Bytes) :=
  if f.size ≤ 0 then .error .sizeNotPositive
  else if payload.length ≠ f.size.toNat then
    .error (.payloadSize payload.length f.size)
  else .ok [payload]

end FixedSizeFramer

structure RawFramer where
  maxFrameBytes : Int
  deriving DecidableEq, Repr

namespace RawFramer

def maxBytes (f : RawFramer) : Nat := limitOf f.maxFrameBytes (32 * 1024)

def readFrame (f : RawFramer) (R : Reader σ UInt8) (r : σ) : Except FrameErr Bytes × σ :=
  match R.read f.maxBytes r with
  | ([], r) => (.error (.read .eof), r)
  | (payload, r) => (.ok payload, r)

def writeFrame (f : RawFramer) (payload : Bytes) : Except FrameErr (List Bytes) :=
  if f.maxBytes < payload.length then .error (.frameTooLarge payload.length f.maxBytes)
  else .ok [payload]

end RawFramer

/-- The `Framer` of a configuration. -/
inductive Framer
  | lengthPrefix (f : LengthPrefixFramer)
  | line (f : LineFramer)
  | fixedSize (f : FixedSizeFramer)
  | raw (f : RawFramer)
  deriving DecidableEq, Repr

def framerAcceptsBufferedRead : Framer → Bool
  | .raw _ => false
  | _ => true

/-- `WriteFrame`: the `Write` calls on the writer. -/
def Framer.writeFrame (f : Framer) (payload : Bytes) : Except FrameErr (List Bytes) :=
  match f with
  | .lengthPrefix f => f.writeFrame payload
  | .line f => f.writeFrame payload
  | .fixedSize f => f.writeFrame payload
  | .raw f => f.writeFrame payload

/-! ### What the read loop gets -/

/-- `ReadFrame` on the connection itself. -/
def Framer.readFrame (f : Framer) (conn : Source UInt8) : Except FrameErr Bytes × Source UInt8 :=
  match f with
  | .lengthPrefix f => f.readFrame Source.reader conn
  | .line f => f.readFrame Source.reader conn
  | .fixedSize f => f.readFrame Source.reader conn
  | .raw f => f.readFrame Source.reader conn

/-- `ReadFrame` on a `*bufio.Reader`. -/
def Framer.readFrameBuffered (f : Framer) (br : BufReader UInt8) :
    Except FrameErr Bytes × BufReader UInt8 :=
  match f with
  | .lengthPrefix f => f.readFrameBuffered br
  | .line f => f.readFrameBuffered br
  | .fixedSize f => f.readFrame BufReader.reader br
  | .raw f => f.readFrame BufReader.reader br

/-- The frames that `readLoop` hands on until `ReadFrame` fails, with the reader
`newSession` makes.  A frame that is read takes at least one byte, so there are
fewer of them than bytes. -/
def frames (f : Framer) (readBufferBytes : Int) (conn : Source UInt8) :
    List Bytes × Option FrameErr :=
  if 0 < readBufferBytes ∧ framerAcceptsBufferedRead f = true then
    untilError f.readFrameBuffered (conn.pending.length + 1)
      (.new readBufferBytes.toNat conn)
  else untilError f.readFrame (conn.pending.length + 1) conn

end SharkSocket.Tcp
