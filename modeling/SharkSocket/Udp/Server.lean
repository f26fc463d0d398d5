import SharkSocket.Lib.Keys
import SharkSocket.Lib.Machine
import SharkSocket.Lib.Pool
import SharkSocket.Shared.Quota

/-!
# `udp/server.go`: the plain UDP server

One read loop resolves every datagram to a session, making one if the peer has
none.  The sweep loop and `CloseSessions` walk the session table and close what
they find.  Both look at an entry first and remove it later, by its key, so the
steps of all of them interleave: each operation on the table, on the
`SessionManager`, on the quota and on a session is a step of its own, and so is
each call into a plugin or the handler.

A session is known by its place in `heap`, which stands for its pointer and for
the ID that `NextID` gave it.  `kill` is a call of `sess.Close` by a plugin, a
handler or any other code that got hold of the session; the body of `closeOnce`
is two steps, the state and then the slot, and whoever else calls `Close` waits
for the second.
-/

namespace SharkSocket.Udp

open Lib
open Shared (PeerIP PeerQuota)
open Std (ExtTreeMap)

/-! ### Peer keys -/

/-- A `*net.UDPAddr`. -/
structure UDPAddr where
  ip : Bytes
  port : Nat
  zone : Bytes
  deriving DecidableEq, Repr

def v4InV6Prefix : Bytes := [0, 0, 0, 0, 0, 0, 0, 0, 0, 0, 0xff, 0xff]

/-- `net.IP.To16`; what is neither form leaves the zero address. -/
def to16 (ip : Bytes) : Bytes :=
  if ip.length = 4 then v4InV6Prefix ++ ip
  else if ip.length = 16 then ip
  else List.replicate 16 0

/-- The fields of a `shared.PeerKey` one after the other: sixteen bytes of
address, two of port, and the zone. -/
abbrev PeerKey := Bytes

def newPeerKey (addr : UDPAddr) : PeerKey :=
  to16 addr.ip ++ [UInt8.ofNat (addr.port / 256), UInt8.ofNat addr.port] ++ addr.zone

/-- A number for each normalised address. -/
def numberIP (bytes : Bytes) : PeerIP :=
  some (bytes.foldl (fun n b => 256 * n + b.toNat) 1)

/-- `shared.PeerIP`: an IPv4 address, mapped or not, has no zone. -/
def peerIP (addr : UDPAddr) : PeerIP :=
  if addr.ip.length = 4 then numberIP addr.ip
  else if addr.ip.length = 16 then
    if addr.ip.take 12 = v4InV6Prefix then numberIP (addr.ip.drop 12)
    else numberIP (addr.ip ++ addr.zone)
  else none

/-! ### State -/

/-- `slot` says that the body of `closeOnce` has not come to its end, where it
returns the admission slot. -/
structure Session where
  key : PeerKey
  ip : PeerIP
  state : SessionState
  slot : Bool
  activeAt : Int
  deriving DecidableEq, Repr

structure Options where
  sessionTTL : Int
  hasHandler : Bool
  maxSessions : Int
  maxSessionsPerPeer : Int
  deriving DecidableEq, Repr

/-- A call of `closeSession`, before each of its four operations. -/
inductive CloseCall
  | delete (key : PeerKey) (i : Nat)
  | unregister (i : Nat)
  | close (i : Nat)
  | onClose (i : Nat)
  | returned
  deriving DecidableEq, Repr

/-- Where the read loop is.  `found` has loaded a session and is about to look
at its state; from `acquire` on a session is made for `addr`; `closing` is in
`closeSession`, after which it makes a session or goes on to the next datagram. -/
inductive ReadPc
  | idle
  | found (addr : UDPAddr) (i : Nat)
  | acquire (addr : UDPAddr)
  | store (i : Nat)
  | closeNew (i actual : Nat)
  | register (i : Nat)
  | deleteUnregistered (i : Nat)
  | onAccept (i : Nat)
  | deleteRejected (i : Nat)
  | unregisterRejected (i : Nat)
  | closeFailed (i : Nat)
  | touch (i : Nat)
  | onMessage (i : Nat)
  | handler (i : Nat)
  | closing (call : CloseCall) (next : Option UDPAddr)
  deriving DecidableEq, Repr

/-- One visit of `Range` in the sweep loop, which has the time of its tick, or
in `CloseSessions`. -/
inductive Closer
  | looked (key : PeerKey) (i : Nat) (tick : Option Int)
  | call (c : CloseCall)
  deriving DecidableEq, Repr

inductive Event
  | onAccept (i : Nat)
  | onClose (i : Nat)
  deriving DecidableEq, Repr

/-- `table` is `s.sessions`, `registered` the sessions of this server in the
`SessionManager`, `log` the plugin calls: each `OnAccept` that succeeded and each
`OnClose`. -/
structure Server where
  now : Int
  heap : List Session
  table : ExtTreeMap PeerKey Nat
  registered : Finset Nat
  quota : Option PeerQuota
  reader : ReadPc
  closers : List Closer
  log : List Event

def Server.start (opts : Options) : Server where
  now := 0
  heap := []
  table := ∅
  registered := ∅
  quota :=
    if 0 < opts.maxSessions ∨ 0 < opts.maxSessionsPerPeer then
      some (.new opts.maxSessions opts.maxSessionsPerPeer)
    else none
  reader := .idle
  closers := []
  log := []

/-- What a call into the `SessionManager`, a plugin or the handler came back
with; `drop` is `ErrPluginDrop`. -/
inductive Reply
  | ok
  | drop
  | fail
  deriving DecidableEq, Repr

inductive Action
  | advance (d : Nat)
  | datagram (addr : UDPAddr)
  | read (reply : Reply)
  | look (key : PeerKey) (tick : Option Int)
  | closer (n : Nat)
  | kill (i : Nat)
  | release (i : Nat)
  deriving DecidableEq, Repr

namespace Server

variable (s : Server)

/-! ### Operations -/

def modify (i : Nat) (f : Session → Session) : Server :=
  { s with heap := s.heap.modify i f }

/-- The first half of `closeOnce`. -/
def markClosed (i : Nat) : Server :=
  s.modify i fun sess => { sess with state := .closed }

def deleteKey (key : PeerKey) : Server := { s with table := s.table.erase key }

def unregister (i : Nat) : Server := { s with registered := s.registered.erase i }

def emit (e : Event) : Server := { s with log := s.log ++ [e] }

def goto (pc : ReadPc) : Server := { s with reader := pc }

/-- A step of a caller of `sess.Close`: it runs the first half of `closeOnce`,
or waits for the second, or is back (`true`). -/
def stepClose (i : Nat) : Option (Server × Bool) :=
  match s.heap[i]? with
  | none => none
  | some sess =>
    if sess.state = .active then some (s.markClosed i, false)
    else if sess.slot then none
    else some (s, true)

/-- A step of `closeSession`. -/
def stepCall : CloseCall → Option (Server × CloseCall)
  | .delete key i =>
    match s.table[key]? with
    | none => some (s, .returned)
    | some _ => some (s.deleteKey key, .unregister i)
  | .unregister i => some (s.unregister i, .close i)
  | .close i => (s.stepClose i).map fun (t, back) => (t, if back then .onClose i else .close i)
  | .onClose i => some (s.emit (.onClose i), .returned)
  | .returned => none

/-- `newSession` under the next ID. -/
def newSession (addr : UDPAddr) : Server :=
  { s with
    heap := s.heap ++ [⟨newPeerKey addr, peerIP addr, .active, true, s.now⟩]
    reader := .store s.heap.length }

def stepAcquire (addr : UDPAddr) : Server :=
  match s.quota with
  | none => s.newSession addr
  | some q =>
    match q.tryAcquire (peerIP addr) with
    | (true, q') => { s with quota := some q' }.newSession addr
    | (false, _) => s.goto .idle

/-- The read loop's next step, with the reply of the call it makes there. -/
def stepRead (opts : Options) (s : Server) (reply : Reply) : Option Server :=
  match s.reader with
  | .idle => none
  | .found addr i =>
    match s.heap[i]? with
    | none => none
    | some sess =>
      if sess.state = .closed then
        some (s.goto (.closing (.delete (newPeerKey addr) i) (some addr)))
      else some (s.goto (.touch i))
  | .acquire addr => some (s.stepAcquire addr)
  | .store i =>
    match s.heap[i]? with
    | none => none
    | some sess =>
      match s.table[sess.key]? with
      | some actual => some (s.goto (.closeNew i actual))
      | none => some { s with table := s.table.insert sess.key i, reader := .register i }
  | .closeNew i actual =>
    (s.stepClose i).map fun (t, back) => if back then t.goto (.touch actual) else t
  | .register i =>
    match reply with
    | .ok => some { s with registered := insert i s.registered, reader := .onAccept i }
    | _ => some (s.goto (.deleteUnregistered i))
  | .deleteUnregistered i =>
    match s.heap[i]? with
    | none => none
    | some sess => some ((s.deleteKey sess.key).goto (.closeFailed i))
  | .onAccept i =>
    match reply with
    | .ok => some ((s.emit (.onAccept i)).goto (.touch i))
    | _ => some (s.goto (.deleteRejected i))
  | .deleteRejected i =>
    match s.heap[i]? with
    | none => none
    | some sess =>
      match s.table[sess.key]? with
      | none => some (s.goto .idle)
      | some _ => some ((s.deleteKey sess.key).goto (.unregisterRejected i))
  | .unregisterRejected i => some ((s.unregister i).goto (.closeFailed i))
  | .closeFailed i => (s.stepClose i).map fun (t, back) => if back then t.goto .idle else t
  | .touch i => some ((s.modify i fun sess => { sess with activeAt := s.now }).goto (.onMessage i))
  | .onMessage i =>
    match reply, s.heap[i]? with
    | .ok, _ => some (s.goto (if opts.hasHandler then .handler i else .idle))
    | .drop, _ => some (s.goto .idle)
    | .fail, some sess => some (s.goto (.closing (.delete sess.key i) none))
    | .fail, none => none
  | .handler i =>
    match reply, s.heap[i]? with
    | .ok, _ => some (s.goto .idle)
    | _, some sess => some (s.goto (.closing (.delete sess.key i) none))
    | _, none => none
  | .closing .returned next =>
    some (s.goto (match next with | some addr => .acquire addr | none => .idle))
  | .closing c next => (s.stepCall c).map fun (t, c') => t.goto (.closing c' next)

def setCloser (n : Nat) (c : Closer) : Server :=
  { s with closers := s.closers.set n c }

def stepCloser (opts : Options) (s : Server) (n : Nat) : Option Server :=
  match s.closers[n]? with
  | none => none
  | some (.looked key i none) => some (s.setCloser n (.call (.delete key i)))
  | some (.looked key i (some tick)) =>
    match s.heap[i]? with
    | none => none
    | some sess =>
      if opts.sessionTTL < tick - sess.activeAt then some (s.setCloser n (.call (.delete key i)))
      else some (s.setCloser n (.call .returned))
  | some (.call c) => (s.stepCall c).map fun (t, c') => t.setCloser n (.call c')

/-- The end of `closeOnce`: `sess.release`. -/
def stepRelease (i : Nat) : Option Server :=
  match s.heap[i]? with
  | none => none
  | some sess =>
    if sess.state = .closed ∧ sess.slot then
      some { s.modify i (fun sess => { sess with slot := false }) with
        quota := s.quota.map (·.release sess.ip) }
    else none

def step (opts : Options) (s : Server) : Action → Option Server
  | .advance d => some { s with now := s.now + d }
  | .datagram addr =>
    if s.reader = .idle then
      match s.table[newPeerKey addr]? with
      | some i => some (s.goto (.found addr i))
      | none => some (s.goto (.acquire addr))
    else none
  | .read reply => s.stepRead opts reply
  | .look key tick =>
    match s.table[key]? with
    | none => none
    | some i =>
      if tick.all (· ≤ s.now) then some { s with closers := s.closers ++ [.looked key i tick] }
      else none
  | .closer n => s.stepCloser opts n
  | .kill i =>
    match s.heap[i]? with
    | none => none
    | some sess => if sess.state = .active then some (s.markClosed i) else none
  | .release i => s.stepRelease i

/-! ### What the operations do -/

def keyOf (i : Nat) : Option PeerKey := s.heap[i]?.map Session.key

variable {s t : Server}

theorem keyOf_modify (s : Server) (i : Nat) {f : Session → Session}
    (hf : ∀ sess, (f sess).key = sess.key) (j : Nat) : (s.modify i f).keyOf j = s.keyOf j := by
  simp only [keyOf, modify, List.getElem?_modify]
  cases s.heap[j]? with
  | none => rfl
  | some sess =>
    simp only [Option.map_eq_map, Option.map_some]
    split
    · rw [hf]
    · rfl

theorem keyOf_markClosed (s : Server) (i j : Nat) : (s.markClosed i).keyOf j = s.keyOf j :=
  keyOf_modify s i (f := fun sess => { sess with state := .closed }) (fun _ => rfl) j

theorem table_deleteKey {key k : PeerKey} {i : Nat} (hk : (s.deleteKey key).table[k]? = some i) :
    s.table[k]? = some i :=
  (getElem?_erase_eq_some.mp hk).2

variable (s) in
inductive CallStep : CloseCall → Server → CloseCall → Prop
  | gone {key i} (hk : s.table[key]? = none) : CallStep (.delete key i) s .returned
  | delete {key i j} (hk : s.table[key]? = some j) :
      CallStep (.delete key i) (s.deleteKey key) (.unregister i)
  | unregister (i) : CallStep (.unregister i) (s.unregister i) (.close i)
  | mark (i) : CallStep (.close i) (s.markClosed i) (.close i)
  | closed (i) : CallStep (.close i) s (.onClose i)
  | onClose (i) : CallStep (.onClose i) (s.emit (.onClose i)) .returned

theorem stepClose_cases {i : Nat} {back : Bool} (h : s.stepClose i = some (t, back)) :
    (t = s.markClosed i ∧ back = false) ∨ (t = s ∧ back = true) := by
  unfold stepClose at h
  split at h
  · cases h
  split at h
  · cases h
    exact .inl ⟨rfl, rfl⟩
  split at h <;> cases h
  exact .inr ⟨rfl, rfl⟩

theorem stepCall_cases {c c' : CloseCall} (h : s.stepCall c = some (t, c')) :
    CallStep s c t c' := by
  cases c with
  | delete key i =>
    simp only [stepCall] at h
    split at h <;> cases h
    · exact .gone ‹_›
    · exact .delete ‹_›
  | unregister i => cases h; exact .unregister i
  | close i =>
    obtain ⟨⟨u, back⟩, hu, heq⟩ := Option.map_eq_some_iff.mp h
    rcases stepClose_cases hu with ⟨rfl, rfl⟩ | ⟨rfl, rfl⟩
    · cases heq
      exact .mark i
    cases heq
    exact .closed i
  | onClose i => cases h; exact .onClose i
  | returned => cases h

theorem CallStep.procs {c c' : CloseCall} (hs : CallStep s c t c') :
    t.reader = s.reader ∧ t.closers = s.closers := by
  cases hs <;> exact ⟨rfl, rfl⟩

theorem CallStep.ne_delete {c c' : CloseCall} (hs : CallStep s c t c') (key : PeerKey) (i : Nat) :
    c' ≠ .delete key i := by
  cases hs <;> exact CloseCall.noConfusion

variable (s) in
/-- **The steps of the read loop**, one constructor for each way out of `stepRead`. -/
inductive ReadStep : Reply → Server → Prop
  | foundClosed {reply addr i} (hr : s.reader = .found addr i) :
      ReadStep reply (s.goto (.closing (.delete (newPeerKey addr) i) (some addr)))
  | found {reply addr i} (hr : s.reader = .found addr i) : ReadStep reply (s.goto (.touch i))
  | acquire {reply addr} (hr : s.reader = .acquire addr) : ReadStep reply (s.stepAcquire addr)
  | storeLost {reply i sess actual} (hr : s.reader = .store i) (hsess : s.heap[i]? = some sess)
      (hk : s.table[sess.key]? = some actual) : ReadStep reply (s.goto (.closeNew i actual))
  | store {reply i sess} (hr : s.reader = .store i) (hsess : s.heap[i]? = some sess)
      (hk : s.table[sess.key]? = none) :
      ReadStep reply { s with table := s.table.insert sess.key i, reader := .register i }
  | closeNew {reply i actual t} (hr : s.reader = .closeNew i actual)
      (hs : ((s.stepClose i).map fun (t, back) => if back then t.goto (.touch actual) else t) =
        some t) : ReadStep reply t
  | register {i} (hr : s.reader = .register i) :
      ReadStep .ok { s with registered := insert i s.registered, reader := .onAccept i }
  | registerFailed {reply i} (hr : s.reader = .register i) :
      ReadStep reply (s.goto (.deleteUnregistered i))
  | deleteUnregistered {reply i sess} (hr : s.reader = .deleteUnregistered i)
      (hsess : s.heap[i]? = some sess) :
      ReadStep reply ((s.deleteKey sess.key).goto (.closeFailed i))
  | onAccept {i} (hr : s.reader = .onAccept i) :
      ReadStep .ok ((s.emit (.onAccept i)).goto (.touch i))
  | rejected {reply i} (hr : s.reader = .onAccept i) : ReadStep reply (s.goto (.deleteRejected i))
  | rejectedGone {reply i} (hr : s.reader = .deleteRejected i) : ReadStep reply (s.goto .idle)
  | deleteRejected {reply i sess} (hr : s.reader = .deleteRejected i)
      (hsess : s.heap[i]? = some sess) :
      ReadStep reply ((s.deleteKey sess.key).goto (.unregisterRejected i))
  | unregisterRejected {reply i} (hr : s.reader = .unregisterRejected i) :
      ReadStep reply ((s.unregister i).goto (.closeFailed i))
  | closeFailed {reply i t} (hr : s.reader = .closeFailed i)
      (hs : ((s.stepClose i).map fun (t, back) => if back then t.goto .idle else t) = some t) :
      ReadStep reply t
  | touch {reply i} (hr : s.reader = .touch i) : ReadStep reply
        ((s.modify i fun sess => { sess with activeAt := s.now }).goto (.onMessage i))
  | toHandler {i} (hr : s.reader = .onMessage i) : ReadStep .ok (s.goto (.handler i))
  | messageDone {reply i} (hr : s.reader = .onMessage i) : ReadStep reply (s.goto .idle)
  | messageFailed {i sess} (hr : s.reader = .onMessage i) (hsess : s.heap[i]? = some sess) :
      ReadStep .fail (s.goto (.closing (.delete sess.key i) none))
  | handlerDone {i} (hr : s.reader = .handler i) : ReadStep .ok (s.goto .idle)
  | handlerFailed {reply i sess} (hr : s.reader = .handler i) (hsess : s.heap[i]? = some sess) :
      ReadStep reply (s.goto (.closing (.delete sess.key i) none))
  | closed {reply} (hr : s.reader = .closing .returned none) : ReadStep reply (s.goto .idle)
  | closedOld {reply addr} (hr : s.reader = .closing .returned (some addr)) :
      ReadStep reply (s.goto (.acquire addr))
  | closing {reply c u c' next} (hr : s.reader = .closing c next) (hc : CallStep s c u c') :
      ReadStep reply (u.goto (.closing c' next))

theorem stepRead_cases {opts : Options} {reply : Reply} (h : s.stepRead opts reply = some t) :
    ReadStep s reply t := by
  unfold stepRead at h
  split at h <;> rename_i hr
  · cases h
  · split at h
    · cases h
    split at h <;> cases h
    · exact .foundClosed hr
    · exact .found hr
  · cases h
    exact .acquire hr
  · split at h
    · cases h
    rename_i hsess
    split at h <;> cases h
    · exact .storeLost hr hsess ‹_›
    · exact .store hr hsess ‹_›
  · exact .closeNew hr h
  · split at h <;> cases h
    · exact .register hr
    · exact .registerFailed hr
  · split at h <;> cases h
    exact .deleteUnregistered hr ‹_›
  · split at h <;> cases h
    · exact .onAccept hr
    · exact .rejected hr
  · split at h
    · cases h
    rename_i hsess
    split at h <;> cases h
    · exact .rejectedGone hr
    · exact .deleteRejected hr hsess
  · cases h
    exact .unregisterRejected hr
  · exact .closeFailed hr h
  · cases h
    exact .touch hr
  · split at h <;> cases h
    · split
      · exact .toHandler hr
      · exact .messageDone hr
    · exact .messageDone hr
    · exact .messageFailed hr ‹_›
  · split at h <;> cases h
    · exact .handlerDone hr
    · exact .handlerFailed hr ‹_›
  · rename_i next
    cases h
    cases next with
    | none => exact .closed hr
    | some addr => exact .closedOld hr
  · obtain ⟨⟨u, c'⟩, hu, rfl⟩ := Option.map_eq_some_iff.mp h
    exact .closing hr (stepCall_cases hu)

end Server

def server (opts : Options) : Machine Server Action where
  init s := s = .start opts
  step := Server.step opts

end SharkSocket.Udp
