import SharkSocket.WebSocket.Lifecycle

/-!
# `quic/server.go`: the life of a connection

`handleConn` does for a QUIC connection what the upgrade handlers do for theirs, so it is
a `Transport`.  There is no upgrade that could fail; the accept loop of the streams is the
read loop, and runs in the handler's own goroutine.  As for WebSocket, that goroutine gives
the slot back, whoever closes the session: `session_and_slot_once`.
-/

namespace SharkSocket.Quic

open Lib
open SharkSocket.Shared
open SharkSocket.Shared.Upgrades (unlimited unlimited_init handler other)

/-- `closeSession` once it has the session. -/
def closeSession : List Act := [.unregister, .close, .onClose]

/-- `discardSession`, and the deferred `Done`. -/
def refused : List Op := [.drop, .act .done]

def transport : Transport where
  body := closeSession
  tail := [.done]
  refused := refused
  pings := false
  unary := false

theorem transport_closes : transport.Closes :=
  ⟨rfl, show .onClose ∉ [Act.done] by decide, refusing_drop_done, List.mem_cons_self⟩

end SharkSocket.Quic
