import Mathlib

/-!
# `internal/core`

The values that every transport shares: payload bytes, the errors the runtime
returns or tests for, the outcome of a call into code the repository does not
own (a session, a plugin, a handler), and the reference-counted frame a
broadcast hands to several sessions.
-/

namespace SharkSocket

/-- A Go `[]byte`; `nil` and the empty slice are both `[]`. -/
abbrev Bytes := List UInt8

/-- The sentinels of `core/errors.go` and `core/plugin.go` that the modelled
code uses, and the errors that user code may return, wrapped or not. -/
inductive Err
  | closed
  | duplicateSession
  | invalidArgument
  | pluginPanic
  | sessionCapacity
  | sessionClosed
  | writeQueueFull
  | handlerPanic
  | pluginDrop
  | pluginBlock
  | other (text : String)
  | wrap (text : String) (inner : Err)
  deriving DecidableEq, Repr

/-- `errors.Is(err, target)` for a sentinel `target`. -/
def Err.is (target : Err) : Err → Bool
  | .wrap text inner => decide (Err.wrap text inner = target) || Err.is target inner
  | e => decide (e = target)

inductive Outcome
  | ok
  | err (e : Err)
  | panic
  deriving DecidableEq, Repr

inductive SessionState
  | active
  | closed
  deriving DecidableEq, Repr

/-! ### `core/frame.go` -/

structure SharedFrame where
  data : Bytes
  refs : Int
  deriving DecidableEq, Repr

def newSharedFrame (data : Bytes) (refs : Int) : SharedFrame :=
  ⟨data, if refs < 1 then 1 else refs⟩

namespace SharedFrame

def payload (f : SharedFrame) : Bytes := f.data

def release (f : SharedFrame) : SharedFrame := { f with refs := f.refs - 1 }

end SharedFrame

end SharkSocket
