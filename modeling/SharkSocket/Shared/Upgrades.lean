import SharkSocket.Shared.Acceptor

/-!
# Upgraded connections

`websocket/server.go` and `grpcweb/server.go` handle an upgrade in the same way, and
`quic/server.go` a connection.  The handler stores the new session in the server's table,
registers it, runs `OnAccept` and starts a read loop and, where there is one, a ping loop;
the loops and `CloseSessions` close the session.  Whoever gets it out of the table
(`LoadAndDelete`) closes it.  The servers differ in what closing does and where the
admission slot is given back: that is a `Transport`.

A goroutine is the list of operations it still has to run, and a step of an upgrade is
the next operation of one of its goroutines.  A session has an ID of its own from
`NextID`, so its entries in the server's table and in the `SessionManager` are its own,
and are two flags here.  Plugins are called as a chain: a chain that refuses a session
has undone its own calls.

`Shape` is what holds of an upgrade in every run, whatever the transport: where its
goroutines stand, and that a session is taken out of the table once.
-/

namespace SharkSocket.Shared

open Lib

/-! ### Goroutines -/

inductive Act
  /-- `Sessions().Unregister(id)` -/
  | unregister
  /-- `sess.Close` -/
  | close
  /-- `Plugins().OnClose(sess)` -/
  | onClose
  /-- `acceptor.Done(peer)` -/
  | done
  deriving DecidableEq, Repr

inductive Op
  | upgrade
  /-- `sessions.Store(id, sess)` -/
  | store
  | register
  | onAccept
  /-- The `go` statements of the loops. -/
  | start
  /-- The loop of `readLoop` up to its `return`. -/
  | read
  | ping
  /-- `LoadAndDelete` of `closeSession`; the rest of it runs if the session was there. -/
  | closeSession
  /-- `LoadAndDelete` of the handler; if the session was there, `Unregister` and `Close`. -/
  | drop
  | act (a : Act)
  deriving DecidableEq, Repr

structure Transport where
  /-- What `closeSession` does with a session it got out of the table. -/
  body : List Act
  /-- What the goroutine of the read loop does after it. -/
  tail : List Act
  /-- What the handler does after `Register` or `OnAccept` failed. -/
  refused : List Op
  /-- `PingInterval > 0` -/
  pings : Bool
  /-- There are requests besides the upgrades that take a slot while they are handled. -/
  unary : Bool

namespace Transport

variable (tr : Transport)

def readLoop : List Op := .read :: .closeSession :: tr.tail.map .act

def pingLoop : List Op := [.ping, .closeSession]

def loops : List (List Op) := if tr.pings then [tr.readLoop, pingLoop] else [tr.readLoop]

end Transport

/-- The handler once `TryAccept` has admitted the peer. -/
def handleUpgrade : List Op := [.upgrade, .store, .register, .onAccept, .start]

/-- What has happened to an upgrade: `OnAccept` returned nil; the handler gave up; the
session was taken out of the table to be closed; `OnClose` and `Done` were called. -/
inductive Note
  | accepted
  | refused
  | taken
  | onClose
  | done
  deriving DecidableEq, Repr

structure Upgrade where
  peer : PeerIP
  handler : List Op
  /-- The loops, and the calls of `closeSession` made by `CloseSessions`. -/
  others : List (List Op)
  inTable : Bool
  registered : Bool
  closed : Bool
  history : List Note
  deriving DecidableEq, Repr

inductive Verdict
  | ok
  | fail
  /-- The ping loop sees the session's context done. -/
  | cancelled
  deriving DecidableEq, Repr

namespace Upgrade

variable (u : Upgrade)

def admitted (peer : PeerIP) : Upgrade := ⟨peer, handleUpgrade, [], false, false, false, []⟩

def note (n : Note) : Upgrade := { u with history := u.history ++ [n] }

def perform : Act → Upgrade
  | .unregister => { u with registered := false }
  | .close => { u with closed := true }
  | .onClose => u.note .onClose
  | .done => u.note .done

@[simp] theorem history_note (n : Note) : (u.note n).history = u.history ++ [n] := rfl

theorem handler_perform (a : Act) : (u.perform a).handler = u.handler := by
  cases a <;> rfl

theorem others_perform (a : Act) : (u.perform a).others = u.others := by
  cases a <;> rfl

theorem inTable_perform (a : Act) : (u.perform a).inTable = u.inTable := by
  cases a <;> rfl

theorem count_perform (a : Act) {n : Note} (hclose : n ≠ .onClose) (hdone : n ≠ .done) :
    (u.perform a).history.count n = u.history.count n := by
  cases a with
  | unregister | close => rfl
  | onClose => simp [perform, hclose.symm]
  | done => simp [perform, hdone.symm]

/-- The next operation of a goroutine, and what is left of it. -/
def exec (tr : Transport) (u : Upgrade) (v : Verdict) : List Op → Option (Upgrade × List Op)
  | [] => none
  | .upgrade :: rest =>
    match v with
    | .ok => some (u, rest)
    | .fail => some (u.note .refused, [.act .done])
    | .cancelled => none
  | .store :: rest => some ({ u with inTable := true }, rest)
  | .register :: rest =>
    match v with
    | .ok => some ({ u with registered := true }, rest)
    | .fail => some (u.note .refused, tr.refused)
    | .cancelled => none
  | .onAccept :: rest =>
    match v with
    | .ok => some (u.note .accepted, rest)
    | .fail => some (u.note .refused, tr.refused)
    | .cancelled => none
  | .start :: rest => some ({ u with others := u.others ++ tr.loops }, rest)
  | .read :: rest =>
    match v with
    | .ok => some (u, .read :: rest)
    | .fail => some (u, rest)
    | .cancelled => none
  | .ping :: rest =>
    match v with
    | .ok => some (u, .ping :: rest)
    | .fail => some (u, rest)
    | .cancelled => if u.closed then some (u, []) else none
  | .closeSession :: rest =>
    if u.inTable then some ({ u with inTable := false }.note .taken, tr.body.map .act ++ rest)
    else some (u, rest)
  | .drop :: rest =>
    if u.inTable then some ({ u with inTable := false }, .act .unregister :: .act .close :: rest)
    else some (u, rest)
  | .act a :: rest => some (u.perform a, rest)

end Upgrade

inductive Move
  | handler (v : Verdict)
  | other (j : Nat) (v : Verdict)
  /-- The `Range` of a `CloseSessions` comes to the session. -/
  | visit
  /-- The application or a plugin calls `sess.Close`. -/
  | close
  deriving DecidableEq, Repr

namespace Upgrade

def step (tr : Transport) (u : Upgrade) : Move → Option Upgrade
  | .handler v => (u.exec tr v u.handler).map fun r => { r.1 with handler := r.2 }
  | .other j v =>
    match u.others[j]? with
    | none => none
    | some g => (u.exec tr v g).map fun r => { r.1 with others := r.1.others.set j r.2 }
  | .visit => if u.inTable then some { u with others := u.others ++ [[.closeSession]] } else none
  | .close => some { u with closed := true }

/-- The operation a move runs. -/
def next (u : Upgrade) : Move → Option Op
  | .handler _ => u.handler.head?
  | .other j _ => u.others[j]?.bind List.head?
  | .visit => none
  | .close => none

/-- All goroutines have returned. -/
def Finished (u : Upgrade) : Prop := u.handler = [] ∧ ∀ g ∈ u.others, g = []

instance (u : Upgrade) : Decidable u.Finished := inferInstanceAs (Decidable (_ ∧ _))

theorem exec_done {tr : Transport} {u u' : Upgrade} {v : Verdict} {g g' : List Op}
    (h : u.exec tr v g = some (u', g')) : u'.peer = u.peer ∧ u'.history.count .done =
      u.history.count .done + if g.head? = some (.act .done) then 1 else 0 := by
  cases g with
  | nil => cases h
  | cons op rest =>
    cases op with
    | act a =>
      cases h
      cases a <;> simp [perform, note]
    | _ =>
      simp only [exec] at h
      -- an operation that is no act writes no `done`, whichever way it goes
      repeat' split at h
      all_goals cases h
      all_goals simp [note]

/-- A move calls `Done` when that is the operation it runs, and only then. -/
theorem step_done {tr : Transport} {u u' : Upgrade} {m : Move} (h : u.step tr m = some u') :
    u'.peer = u.peer ∧ u'.history.count .done =
      u.history.count .done + if u.next m = some (.act .done) then 1 else 0 := by
  cases m with
  | handler v =>
    obtain ⟨⟨w, g⟩, hexec, rfl⟩ := Option.map_eq_some_iff.mp h
    obtain ⟨hpeer, hdone⟩ := exec_done hexec
    exact ⟨hpeer, hdone⟩
  | other j v =>
    rw [step] at h
    split at h
    · cases h
    rename_i g hg
    obtain ⟨⟨w, g'⟩, hexec, rfl⟩ := Option.map_eq_some_iff.mp h
    obtain ⟨hpeer, hdone⟩ := exec_done hexec
    rw [next, hg]
    exact ⟨hpeer, hdone⟩
  | visit =>
    rw [step] at h
    split at h
    · cases h
      exact ⟨rfl, rfl⟩
    · cases h
  | close =>
    cases h
    exact ⟨rfl, rfl⟩

end Upgrade

/-! ### Servers -/

structure Upgrades where
  acceptor : Acceptor
  upgrades : List Upgrade
  /-- The peers of the other requests that hold a slot. -/
  requests : List PeerIP

inductive Arrival
  | upgrade (now : Int) (peer : PeerIP)
  | move (k : Nat) (m : Move)
  | request (now : Int) (peer : PeerIP)
  /-- The handler of such a request returns. -/
  | answered (k : Nat)
  deriving DecidableEq, Repr

namespace Upgrades

def step (tr : Transport) (s : Upgrades) : Arrival → Option Upgrades
  | .upgrade now peer =>
    let r := s.acceptor.tryAccept now peer
    some { s with
      acceptor := r.2
      upgrades := if r.1 = .ok then s.upgrades ++ [.admitted peer] else s.upgrades }
  | .move k m =>
    match s.upgrades[k]? with
    | none => none
    | some u =>
      (u.step tr m).map fun u' => { s with
        acceptor := if u.next m = some (.act .done) then s.acceptor.done u.peer else s.acceptor
        upgrades := s.upgrades.set k u' }
  | .request now peer =>
    if tr.unary then
      let r := s.acceptor.tryAccept now peer
      some { s with
        acceptor := r.2
        requests := if r.1 = .ok then peer :: s.requests else s.requests }
    else none
  | .answered k =>
    match s.requests[k]? with
    | none => none
    | some peer =>
      some { s with acceptor := s.acceptor.done peer, requests := s.requests.eraseIdx k }

end Upgrades

def upgrading (tr : Transport) : Machine Upgrades Arrival where
  init s := (∃ now maxConns rate maxPerPeer, s.acceptor = .new now maxConns rate maxPerPeer) ∧
    s.upgrades = [] ∧ s.requests = []
  step := Upgrades.step tr

/-- What a step does to the upgrades. -/
theorem upgrades_step {tr : Transport} {s t : Upgrades} {a : Arrival} (h : s.step tr a = some t) :
    t.upgrades = s.upgrades ∨ (∃ peer, t.upgrades = s.upgrades ++ [.admitted peer]) ∨
      ∃ k m u u', s.upgrades[k]? = some u ∧ u.step tr m = some u' ∧
        t.upgrades = s.upgrades.set k u' := by
  cases a with
  | upgrade now peer =>
    cases h
    split
    · exact .inr (.inl ⟨peer, rfl⟩)
    · exact .inl rfl
  | move k m =>
    rw [Upgrades.step] at h
    split at h
    · cases h
    rename_i u hu
    obtain ⟨u', hu', rfl⟩ := Option.map_eq_some_iff.mp h
    exact .inr (.inr ⟨k, m, u, u', hu, hu', rfl⟩)
  | request now peer =>
    rw [Upgrades.step] at h
    split at h
    · cases h
      exact .inl rfl
    · cases h
  | answered k =>
    rw [Upgrades.step] at h
    split at h
    · cases h
    cases h
    exact .inl rfl

/-- What holds of a new upgrade and passes over its own moves holds of every upgrade of
every run. -/
theorem upgrade_inv {tr : Transport} {I : Upgrade → Prop} (hnew : ∀ peer, I (.admitted peer))
    (hstep : ∀ u m u', I u → u.step tr m = some u' → I u') {s : Upgrades}
    (hs : (upgrading tr).Reachable s) : ∀ u ∈ s.upgrades, I u := by
  refine hs.inv (I := fun s => ∀ u ∈ s.upgrades, I u) ?_ ?_
  · rintro s ⟨-, hnil, -⟩ u hu
    rw [hnil] at hu
    cases hu
  · intro s a t h _ hst
    rcases upgrades_step hst with heq | ⟨peer, heq⟩ | ⟨k, m, v, v', hv, hv', heq⟩
    · rw [heq]
      exact h
    · rw [heq]
      exact forall_mem_concat h (hnew peer)
    rw [heq]
    exact forall_mem_set h (hstep v m v' (h v (List.mem_of_getElem? hv)) hv')

/-! ### Where the goroutines stand -/

/-- A goroutine that is going to close the session, or has.  Only the read loop's has a
tail. -/
inductive Closer (tr : Transport) : List Op → Prop
  | reading : Closer tr tr.readLoop
  | pinging : Closer tr Transport.pingLoop
  | closing (tail : List Act) (htail : tail = [] ∨ tail = tr.tail) :
      Closer tr (.closeSession :: tail.map .act)
  | acting (acts tail : List Act) (htail : tail = [] ∨ tail = tr.tail)
      (hacts : acts <:+ tr.body ++ tail) : Closer tr (acts.map .act)

/-- The number of times a goroutine is sure to perform `a`. -/
def pending (a : Act) (g : List Op) : Nat := g.count (.act a)

theorem pending_map_act (a : Act) (acts : List Act) : pending a (acts.map .act) = acts.count a :=
  List.count_map_of_injective acts Op.act (fun _ _ h => Op.act.inj h) a

theorem pending_cons_act (a b : Act) (g : List Op) :
    pending a (.act b :: g) = pending a g + if a = b then 1 else 0 := by
  unfold pending
  by_cases h : a = b
  · simp [h]
  · simp [h, Ne.symm h]

theorem count_done_perform (u : Upgrade) (a : Act) :
    (u.perform a).history.count .done = u.history.count .done + if .done = a then 1 else 0 := by
  cases a <;> simp [Upgrade.perform, Upgrade.note]

/-- It will try to take the session out of the table. -/
def Tries (g : List Op) : Prop := .closeSession ∈ g ∧ .ping ∉ g

/-- One step of such a goroutine. -/
inductive CloserStep (tr : Transport) (u : Upgrade) (g : List Op) : Upgrade → List Op → Prop
  | idle {g' : List Op} (hpending : ∀ a, pending a g' = pending a g)
      (htries : Tries g → Tries g' ∨ u.inTable = false) : CloserStep tr u g u g'
  | took (tail : List Act) (hg : g = .closeSession :: tail.map .act) (hin : u.inTable = true) :
      CloserStep tr u g ({ u with inTable := false }.note .taken) ((tr.body ++ tail).map .act)
  | acted (a : Act) (acts : List Act) (hg : g = .act a :: acts.map .act) :
      CloserStep tr u g (u.perform a) (acts.map .act)

variable {tr : Transport}

variable {g g' : List Op} {v : Verdict}

theorem Closer.step {u u' : Upgrade} (hg : Closer tr g) (h : u.exec tr v g = some (u', g')) :
    Closer tr g' ∧ CloserStep tr u g u' g' := by
  cases hg with
  | reading =>
    cases v with
    | ok =>
      cases h
      exact ⟨.reading, .idle (fun _ => rfl) .inl⟩
    | fail =>
      cases h
      refine ⟨.closing tr.tail (.inr rfl), .idle (fun a => ?_) fun _ => .inl ?_⟩
      · simp [pending, Transport.readLoop]
      · simp [Tries]
    | cancelled => cases h
  | pinging =>
    cases v with
    | ok =>
      cases h
      exact ⟨.pinging, .idle (fun _ => rfl) .inl⟩
    | fail =>
      cases h
      refine ⟨.closing [] (.inl rfl), .idle (fun a => ?_) fun _ => .inl ?_⟩
      · simp [pending, Transport.pingLoop]
      · simp [Tries]
    | cancelled =>
      simp only [Transport.pingLoop, Upgrade.exec] at h
      split at h
      · cases h
        refine ⟨.acting [] [] (.inl rfl) List.nil_suffix, .idle (fun a => ?_) ?_⟩
        · simp [pending, Transport.pingLoop]
        · rintro ⟨-, hping⟩
          exact absurd List.mem_cons_self hping
      · cases h
  | closing tail htail =>
    rw [Upgrade.exec] at h
    by_cases hin : u.inTable = true
    · rw [if_pos hin] at h
      cases h
      rw [← List.map_append]
      exact ⟨.acting _ tail htail List.suffix_rfl, .took tail rfl hin⟩
    rw [if_neg hin] at h
    cases h
    refine ⟨.acting tail tail htail (List.suffix_append _ _), .idle (fun a => ?_) fun _ => .inr ?_⟩
    · simp [pending]
    · exact Bool.eq_false_of_not_eq_true hin
  | acting acts tail htail hacts =>
    cases acts with
    | nil => cases h
    | cons a acts =>
      cases h
      exact ⟨.acting acts tail htail ((List.suffix_cons a acts).trans hacts), .acted a acts rfl⟩

theorem closer_loops : ∀ g ∈ tr.loops, Closer tr g := by
  intro g hg
  unfold Transport.loops at hg
  split at hg
  · simp only [List.mem_cons, List.not_mem_nil, or_false] at hg
    rcases hg with rfl | rfl
    · exact .reading
    · exact .pinging
  rw [List.mem_singleton.mp hg]
  exact .reading

theorem exists_tries_loops (tr : Transport) : ∃ g ∈ tr.loops, Tries g := by
  have htries : Tries tr.readLoop := by simp [Tries, Transport.readLoop]
  unfold Transport.loops
  split <;> exact ⟨tr.readLoop, List.mem_cons_self, htries⟩

theorem pending_loops (a : Act) : (tr.loops.map (pending a)).sum = tr.tail.count a := by
  have hread : pending a tr.readLoop = tr.tail.count a := by
    rw [← pending_map_act]
    simp [pending, Transport.readLoop]
  have hping : pending a Transport.pingLoop = 0 := by simp [pending, Transport.pingLoop]
  unfold Transport.loops
  split
  · simp [hread, hping]
  · simp [hread]

/-! ### What holds in every run -/

/-- What the handler still does once it has given up. -/
def Refusing (g : List Op) : Prop := ∀ op ∈ g, op = .drop ∨ ∃ a, op = .act a ∧ a ≠ .onClose

theorem Refusing.cons_act {g : List Op} (h : Refusing g) {a : Act} (ha : a ≠ .onClose) :
    Refusing (.act a :: g) := by
  intro op hop
  rcases List.mem_cons.mp hop with rfl | hop
  · exact .inr ⟨a, rfl, ha⟩
  · exact h op hop

theorem refusing_drop_done : Refusing [.drop, .act .done] := by
  intro op hop
  rcases List.mem_cons.mp hop with rfl | hop
  · exact .inl rfl
  · exact .inr ⟨.done, List.mem_singleton.mp hop, nofun⟩

/-- `OnClose` is called once by `closeSession` and by nobody else, and a handler that
gives up takes the session out of the table. -/
structure Transport.Closes (tr : Transport) : Prop where
  once : tr.body.count .onClose = 1
  tail : .onClose ∉ tr.tail
  refusing : Refusing tr.refused
  drops : .drop ∈ tr.refused

/-- The number of times the goroutines besides the handler are sure to perform `a`. -/
def owed (l : List (List Op)) (a : Act) : Nat := (l.map (pending a)).sum

/-- How far the handler is. -/
inductive Phase (u : Upgrade) : Prop
  | arriving (hpos : u.handler = handleUpgrade ∨ u.handler = handleUpgrade.tail)
      (hin : u.inTable = false) (hothers : u.others = []) (hhistory : u.history = [])
  | opening (hpos : u.handler = [.register, .onAccept, .start] ∨ u.handler = [.onAccept, .start])
      (hacc : .accepted ∉ u.history) (href : u.history.count .refused = 0)
      (htable : u.inTable.toNat + u.history.count .taken = 1)
  | running (hpos : u.handler = [.start] ∨ u.handler = [])
      (hacc : .accepted ∈ u.history) (href : u.history.count .refused = 0)
      (htable : u.inTable.toNat + u.history.count .taken = 1)
      (htries : u.handler = [.start] ∨ (∃ g ∈ u.others, Tries g) ∨ u.inTable = false)
  | refused (hpos : Refusing u.handler)
      (hacc : .accepted ∉ u.history) (href : u.history.count .refused = 1)
      (htable : u.inTable.toNat + u.history.count .taken ≤ 1)
      (hdrop : .drop ∈ u.handler ∨ u.inTable = false)

/-- What holds of an upgrade in every run. -/
structure Shape (tr : Transport) (u : Upgrade) : Prop where
  closers : ∀ g ∈ u.others, Closer tr g
  phase : Phase u
  closes : owed u.others .onClose + u.history.count .onClose = u.history.count .taken

/-! ### Steps -/

variable (tr : Transport) (u : Upgrade) in
/-- A step of the handler. -/
inductive HandlerStep : Upgrade → Prop
  | upgraded (hpos : u.handler = handleUpgrade) :
      HandlerStep { u with handler := handleUpgrade.tail }
  | notUpgraded (hpos : u.handler = handleUpgrade) :
      HandlerStep { u.note .refused with handler := [.act .done] }
  | stored (hpos : u.handler = handleUpgrade.tail) :
      HandlerStep { u with inTable := true, handler := [.register, .onAccept, .start] }
  | registered (hpos : u.handler = [.register, .onAccept, .start]) :
      HandlerStep { u with registered := true, handler := [.onAccept, .start] }
  | accepted (hpos : u.handler = [.onAccept, .start]) :
      HandlerStep { u.note .accepted with handler := [.start] }
  | refused (hpos : u.handler = [.register, .onAccept, .start] ∨ u.handler = [.onAccept, .start]) :
      HandlerStep { u.note .refused with handler := tr.refused }
  | started (hpos : u.handler = [.start]) :
      HandlerStep { u with others := u.others ++ tr.loops, handler := [] }
  | dropped (rest : List Op) (hpos : u.handler = .drop :: rest) (hin : u.inTable = true) :
      HandlerStep { u with inTable := false, handler := .act .unregister :: .act .close :: rest }
  | absent (rest : List Op) (hpos : u.handler = .drop :: rest) (hin : u.inTable = false) :
      HandlerStep { u with handler := rest }
  | acted (a : Act) (rest : List Op) (hpos : u.handler = .act a :: rest) (ha : a ≠ .onClose) :
      HandlerStep { u.perform a with handler := rest }

variable (tr : Transport) (u : Upgrade) in
/-- A step of another goroutine, or the start of one. -/
inductive OtherStep : Upgrade → Prop
  | idle {l : List (List Op)} (howed : ∀ a, owed l a = owed u.others a) :
      OtherStep { u with others := l }
  | took {l : List (List Op)} (hin : u.inTable = true)
      (howed : ∀ a, owed l a = owed u.others a + tr.body.count a) :
      OtherStep { { u with inTable := false }.note .taken with others := l }
  | acted {l : List (List Op)} (a : Act)
      (howed : ∀ b, owed l b + (if b = a then 1 else 0) = owed u.others b) :
      OtherStep { u.perform a with others := l }
  | closed : OtherStep { u with closed := true }

section

variable {u u' : Upgrade}

/-- The handler's next operation, and how far it is then. -/
theorem Phase.handler (h : Phase u) (htr : tr.Closes) {g : List Op}
    (hexec : u.exec tr v u.handler = some (u', g)) :
    HandlerStep tr u { u' with handler := g } ∧ Phase { u' with handler := g } := by
  cases h with
  | arriving hpos hin hothers hhistory =>
    rcases hpos with hpos | hpos
    · rw [hpos] at hexec
      cases v with
      | ok =>
        cases hexec
        exact ⟨.upgraded hpos, .arriving (.inr rfl) hin hothers hhistory⟩
      | fail =>
        cases hexec
        refine ⟨.notUpgraded hpos, .refused ?_ ?_ ?_ ?_ (.inr hin)⟩
        · intro op hop
          exact .inr ⟨.done, List.mem_singleton.mp hop, nofun⟩
        · simp [Upgrade.note, hhistory]
        · simp [Upgrade.note, hhistory]
        · simp [Upgrade.note, hhistory, hin]
      | cancelled => cases hexec
    · rw [hpos] at hexec
      cases hexec
      refine ⟨.stored hpos, .opening (.inl rfl) ?_ ?_ ?_⟩
      · simp [hhistory]
      · simp [hhistory]
      · simp [hhistory]
  | opening hpos hacc href htable =>
    have hrefused : Phase { u.note .refused with handler := tr.refused } := by
      refine .refused htr.refusing ?_ ?_ ?_ (.inl htr.drops)
      · simpa [Upgrade.note] using hacc
      · simpa [Upgrade.note] using href
      · simpa [Upgrade.note] using htable.le
    rcases hpos with hpos | hpos
    · rw [hpos] at hexec
      cases v with
      | ok =>
        cases hexec
        exact ⟨.registered hpos, .opening (.inr rfl) hacc href htable⟩
      | fail =>
        cases hexec
        exact ⟨.refused (.inl hpos), hrefused⟩
      | cancelled => cases hexec
    · rw [hpos] at hexec
      cases v with
      | ok =>
        cases hexec
        refine ⟨.accepted hpos, .running (.inl rfl) ?_ ?_ ?_ (.inl rfl)⟩
        · simp [Upgrade.note]
        · simpa [Upgrade.note] using href
        · simpa [Upgrade.note] using htable
      | fail =>
        cases hexec
        exact ⟨.refused (.inr hpos), hrefused⟩
      | cancelled => cases hexec
  | running hpos hacc href htable htries =>
    rcases hpos with hpos | hpos
    · rw [hpos] at hexec
      cases hexec
      refine ⟨.started hpos, .running (.inr rfl) hacc href htable (.inr (.inl ?_))⟩
      obtain ⟨g, hg, htries⟩ := exists_tries_loops tr
      exact ⟨g, List.mem_append_right _ hg, htries⟩
    rw [hpos] at hexec
    cases hexec
  | refused hpos hacc href htable hdrop =>
    cases hh : u.handler with
    | nil =>
      rw [hh] at hexec
      cases hexec
    | cons op rest =>
      rw [hh] at hexec hpos hdrop
      have hrest : Refusing rest := fun op hop => hpos op (List.mem_cons_of_mem _ hop)
      rcases hpos op List.mem_cons_self with rfl | ⟨a, rfl, ha⟩
      · rw [Upgrade.exec] at hexec
        by_cases hin : u.inTable = true
        · rw [if_pos hin] at hexec
          cases hexec
          refine ⟨.dropped _ hh hin, .refused ?_ hacc href ?_ (.inr rfl)⟩
          · exact (hrest.cons_act (a := .close) nofun).cons_act nofun
          · rw [hin] at htable
            exact Nat.le_of_succ_le (by simpa [Nat.add_comm] using htable)
        rw [if_neg hin] at hexec
        have hout := Bool.eq_false_of_not_eq_true hin
        cases hexec
        exact ⟨.absent _ hh hout, .refused hrest hacc href htable (.inr hout)⟩
      · have hdrop' : .drop ∈ rest ∨ u.inTable = false := by simpa using hdrop
        cases hexec
        refine ⟨.acted a _ hh ha, ?_⟩
        cases a with
        | unregister | close => exact .refused hrest hacc href htable hdrop'
        | onClose => exact absurd rfl ha
        | done =>
          refine .refused hrest ?_ ?_ ?_ hdrop'
          · simpa [Upgrade.perform, Upgrade.note] using hacc
          · simpa [Upgrade.perform, Upgrade.note] using href
          · simpa [Upgrade.perform, Upgrade.note] using htable

theorem OtherStep.count {n : Note} (h : OtherStep tr u u') (htaken : n ≠ .taken)
    (hclose : n ≠ .onClose) (hdone : n ≠ .done) : u'.history.count n = u.history.count n := by
  cases h with
  | idle _ => rfl
  | took _ _ => simp [htaken.symm]
  | acted a _ => exact u.count_perform a hclose hdone
  | closed => rfl

theorem owed_set {j : Nat} {g : List Op} (hg : u.others[j]? = some g) (g' : List Op) (a : Act) :
    owed (u.others.set j g') a + pending a g = owed u.others a + pending a g' :=
  sum_map_set (pending a) hg g'

theorem otherStep_of_closer {j : Nat} (hg : u.others[j]? = some g) (hcloser : Closer tr g)
    (hexec : u.exec tr v g = some (u', g')) :
    OtherStep tr u { u' with others := u'.others.set j g' } := by
  have howed := owed_set hg g'
  cases (hcloser.step hexec).2 with
  | idle hpending _ =>
    refine .idle fun a => ?_
    have hset := howed a
    have hsame := hpending a
    omega
  | took tail htail hin =>
    refine .took hin fun a => ?_
    dsimp only [Upgrade.note]
    have hset := howed a
    have hbefore : pending a g = tail.count a := by
      rw [htail, ← pending_map_act]
      exact List.count_cons_of_ne (by simp)
    rw [pending_map_act, List.count_append] at hset
    omega
  | acted a acts hacts =>
    rw [u.others_perform a]
    refine .acted a fun b => ?_
    have hset := howed b
    rw [hacts, pending_cons_act] at hset
    omega

/-- The other goroutines after a move: each of them closes, and if one of them was going
to take the session out of the table then one still is or it is out. -/
structure Others (tr : Transport) (u u' : Upgrade) : Prop where
  closers : ∀ g ∈ u'.others, Closer tr g
  tries : (∃ g ∈ u.others, Tries g) → (∃ g ∈ u'.others, Tries g) ∨ u'.inTable = false

theorem exists_tries_set {l : List (List Op)} {j : Nat} {P : Prop} (hg : l[j]? = some g)
    (hstep : Tries g → Tries g' ∨ P) (h : ∃ g ∈ l, Tries g) : (∃ g ∈ l.set j g', Tries g) ∨ P := by
  obtain ⟨g₀, hmem, htries⟩ := h
  obtain ⟨i, hi⟩ := List.mem_iff_getElem?.mp hmem
  have hj := (List.getElem?_eq_some_iff.mp hg).1
  by_cases hij : i = j
  · rw [hij, hg] at hi
    cases hi
    refine (hstep htries).imp_left fun ht => ⟨g', ?_, ht⟩
    exact List.mem_iff_getElem?.mpr ⟨j, List.getElem?_set_self hj⟩
  refine .inl ⟨g₀, List.mem_iff_getElem?.mpr ⟨i, ?_⟩, htries⟩
  rw [List.getElem?_set_ne (Ne.symm hij), hi]

theorem CloserStep.tries (h : CloserStep tr u g u' g') :
    Tries g → Tries g' ∨ u'.inTable = false := by
  intro ht
  cases h with
  | idle _ htries => exact htries ht
  | took tail hg hin => exact .inr rfl
  | acted a acts hg =>
    rw [hg] at ht
    have hmem := ht.1
    simp at hmem

theorem others_of_closer {j : Nat} (h : ∀ g ∈ u.others, Closer tr g) (hg : u.others[j]? = some g)
    (hexec : u.exec tr v g = some (u', g')) :
    Others tr u { u' with others := u'.others.set j g' } := by
  obtain ⟨hcloser, hstep⟩ := (h g (List.mem_of_getElem? hg)).step hexec
  have hothers : u'.others = u.others := by
    cases hstep with
    | idle _ _ | took tail hg hin => rfl
    | acted a acts hg => exact u.others_perform a
  rw [hothers]
  exact ⟨forall_mem_set h hcloser, exists_tries_set hg hstep.tries⟩

/-- A step of another goroutine does not change how far the handler is. -/
theorem Phase.other (h : Phase u) (hst : OtherStep tr u u') (hothers : Others tr u u')
    (hlate : u.inTable = false → u.others = [] → u'.others = [] ∧ u'.history = u.history) :
    Phase u' := by
  have hhandler : u'.handler = u.handler := by
    cases hst with
    | acted a _ => exact u.handler_perform a
    | _ => rfl
  have hacc' : .accepted ∈ u'.history ↔ .accepted ∈ u.history := by
    rw [← List.count_pos_iff, ← List.count_pos_iff, hst.count (by decide) (by decide) (by decide)]
  have href' : u'.history.count .refused = u.history.count .refused :=
    hst.count (by decide) (by decide) (by decide)
  have htable' : u'.inTable.toNat + u'.history.count .taken =
      u.inTable.toNat + u.history.count .taken := by
    cases hst with
    | idle _ => rfl
    | took hin _ => simp [Upgrade.note, hin, Nat.add_comm]
    | acted a _ => rw [u.count_perform a (by decide) (by decide), u.inTable_perform a]
    | closed => rfl
  have hgone : u.inTable = false → u'.inTable = false := by
    intro hout
    cases hst with
    | took _ _ => rfl
    | acted a _ => exact (u.inTable_perform a).trans hout
    | _ => exact hout
  cases h with
  | arriving hpos hin hnil hhistory =>
    obtain ⟨hnil', hsame⟩ := hlate hin hnil
    exact .arriving (by rwa [hhandler]) (hgone hin) hnil' (hsame.trans hhistory)
  | opening hpos hacc href htable =>
    refine .opening ?_ (by rwa [hacc']) (href'.trans href) (htable'.trans htable)
    rwa [hhandler]
  | running hpos hacc href htable htries =>
    refine .running ?_ (hacc'.mpr hacc) (href'.trans href) (htable'.trans htable) ?_
    · rwa [hhandler]
    · rw [hhandler]
      rcases htries with hstart | htries | hout
      · exact .inl hstart
      · exact .inr (hothers.tries htries)
      · exact .inr (.inr (hgone hout))
  | refused hpos hacc href htable hdrop =>
    refine .refused ?_ (by rwa [hacc']) (href'.trans href) (htable'.trans_le htable) ?_
    · rwa [hhandler]
    · rw [hhandler]
      exact hdrop.imp_right hgone

theorem closers_handler (h : ∀ g ∈ u.others, Closer tr g) (hst : HandlerStep tr u u') :
    ∀ g ∈ u'.others, Closer tr g := by
  cases hst with
  | started hpos =>
    intro g hg
    rcases List.mem_append.mp hg with hg | hg
    · exact h g hg
    · exact closer_loops g hg
  | acted a rest hpos ha => rwa [u.others_perform a]
  | _ => exact h

/-- **What a move of an upgrade does.** -/
theorem step_cases (h : Shape tr u) (htr : tr.Closes) {m : Move} (hst : u.step tr m = some u') :
    (HandlerStep tr u u' ∨ OtherStep tr u u') ∧ Phase u' ∧ ∀ g ∈ u'.others, Closer tr g := by
  cases m with
  | handler v =>
    obtain ⟨⟨w, g⟩, hexec, rfl⟩ := Option.map_eq_some_iff.mp hst
    obtain ⟨hstep, hphase⟩ := h.phase.handler htr hexec
    exact ⟨.inl hstep, hphase, closers_handler h.closers hstep⟩
  | other j v =>
    rw [Upgrade.step] at hst
    split at hst
    · cases hst
    rename_i g hg
    obtain ⟨⟨w, g'⟩, hexec, rfl⟩ := Option.map_eq_some_iff.mp hst
    have hmem := List.mem_of_getElem? hg
    have hstep := otherStep_of_closer hg (h.closers g hmem) hexec
    have hothers := others_of_closer h.closers hg hexec
    refine ⟨.inr hstep, h.phase.other hstep hothers fun _ hnil => ?_, hothers.closers⟩
    exact absurd hnil (List.ne_nil_of_mem hmem)
  | visit =>
    rw [Upgrade.step] at hst
    split at hst
    · rename_i hin
      cases hst
      have hstep : OtherStep tr u { u with others := u.others ++ [[.closeSession]] } := by
        refine .idle fun a => ?_
        simp [owed, pending]
      have hothers : Others tr u { u with others := u.others ++ [[.closeSession]] } := by
        refine ⟨forall_mem_concat h.closers (.closing [] (.inl rfl)), ?_⟩
        rintro ⟨g, hg, htries⟩
        exact .inl ⟨g, List.mem_append_left _ hg, htries⟩
      refine ⟨.inr hstep, h.phase.other hstep hothers fun hout => ?_, hothers.closers⟩
      exact absurd hin (by simp [hout])
    · cases hst
  | close =>
    cases hst
    have hphase := h.phase.other .closed ⟨h.closers, .inl⟩ fun _ hnil => ⟨hnil, rfl⟩
    exact ⟨.inr .closed, hphase, h.closers⟩

end

/-! ### The shape is kept -/

/-- What a move adds to the history; an `OnClose` was owed. -/
theorem history_step {u u' : Upgrade} (h : HandlerStep tr u u' ∨ OtherStep tr u u') :
    u'.history = u.history ∨ ∃ n, u'.history = u.history ++ [n] ∧
      (n = .onClose → 0 < owed u.others .onClose) := by
  rcases h with h | h
  · cases h with
    | notUpgraded | refused => exact .inr ⟨.refused, rfl, nofun⟩
    | accepted => exact .inr ⟨.accepted, rfl, nofun⟩
    | acted a rest hpos ha =>
      cases a with
      | done => exact .inr ⟨.done, rfl, nofun⟩
      | onClose => exact absurd rfl ha
      | unregister | close => exact .inl rfl
    | _ => exact .inl rfl
  · cases h with
    | took hin howed => exact .inr ⟨.taken, rfl, nofun⟩
    | acted a howed =>
      cases a with
      | done => exact .inr ⟨.done, rfl, nofun⟩
      | onClose =>
        refine .inr ⟨.onClose, rfl, fun _ => ?_⟩
        have ho := howed .onClose
        rw [if_pos rfl] at ho
        omega
      | unregister | close => exact .inl rfl
    | _ => exact .inl rfl

namespace Shape

variable {u u' : Upgrade}

theorem admitted (peer : PeerIP) : Shape tr (.admitted peer) :=
  ⟨nofun, .arriving (.inl rfl) rfl rfl rfl, rfl⟩

/-- Who is sure to call `OnClose` has taken the session out of the table. -/
theorem closes_step (h : Shape tr u) (htr : tr.Closes)
    (hst : HandlerStep tr u u' ∨ OtherStep tr u u') :
    owed u'.others .onClose + u'.history.count .onClose = u'.history.count .taken := by
  have hcloses := h.closes
  rcases hst with hst | hst
  · cases hst with
    | upgraded hpos => exact hcloses
    | notUpgraded hpos => simpa [Upgrade.note] using hcloses
    | stored hpos | registered hpos => exact hcloses
    | accepted hpos | refused hpos => simpa [Upgrade.note] using hcloses
    | started hpos =>
      have hloops := List.count_eq_zero_of_not_mem htr.tail
      simp only [owed, List.map_append, List.sum_append, pending_loops, hloops, add_zero]
      exact hcloses
    | dropped rest hpos hin | absent rest hpos hin => exact hcloses
    | acted a rest hpos ha =>
      cases a with
      | onClose => exact absurd rfl ha
      | done => simpa [Upgrade.perform, Upgrade.note] using hcloses
      | unregister | close => exact hcloses
  · cases hst with
    | idle howed =>
      rw [howed]
      exact hcloses
    | took hin howed =>
      have ho := howed .onClose
      rw [htr.once] at ho
      simp only [Upgrade.history_note, count_concat, reduceCtorEq, if_false, if_true]
      omega
    | acted a howed =>
      have ho := howed .onClose
      dsimp only
      rw [u.count_perform a (n := .taken) (by decide) (by decide)]
      by_cases ha : a = .onClose
      · subst ha
        simp only [if_true] at ho
        simp only [Upgrade.perform, Upgrade.history_note, count_concat, if_true]
        omega
      have hsame : (u.perform a).history.count .onClose = u.history.count .onClose := by
        cases a with
        | onClose => exact absurd rfl ha
        | done => simp [Upgrade.perform]
        | unregister | close => rfl
      rw [if_neg (Ne.symm ha)] at ho
      omega
    | closed => exact hcloses

theorem step (h : Shape tr u) (htr : tr.Closes) {m : Move} (hst : u.step tr m = some u') :
    Shape tr u' := by
  obtain ⟨hstep, hphase, hclosers⟩ := step_cases h htr hst
  exact ⟨hclosers, hphase, h.closes_step htr hstep⟩

/-- What the steps of a well-shaped upgrade keep holds of every upgrade of a run. -/
theorem inv_of_reachable {P : Upgrade → Prop} (htr : tr.Closes)
    (hadmitted : ∀ peer, P (.admitted peer))
    (hstep : ∀ {u u' : Upgrade}, Shape tr u → P u → HandlerStep tr u u' ∨ OtherStep tr u u' → P u')
    {s : Upgrades} (hs : (upgrading tr).Reachable s) : ∀ u ∈ s.upgrades, Shape tr u ∧ P u := by
  refine upgrade_inv ?_ ?_ hs
  · intro peer
    exact ⟨.admitted peer, hadmitted peer⟩
  · rintro u m u' ⟨hshape, h⟩ hst
    exact ⟨hshape.step htr hst, hstep hshape h (step_cases hshape htr hst).1⟩

theorem table_le (h : Shape tr u) : u.inTable.toNat + u.history.count .taken ≤ 1 := by
  cases h.phase with
  | arriving _ hin _ hhistory => simp [hin, hhistory]
  | opening _ _ _ htable | running _ _ _ htable _ => exact htable.le
  | refused _ _ _ htable _ => exact htable

/-- `OnClose` is called at most once. -/
theorem onClose_le (h : Shape tr u) : u.history.count .onClose ≤ 1 := by
  have hcloses := h.closes
  have htable := h.table_le
  omega

theorem owed_of_finished (hf : u.Finished) (a : Act) : owed u.others a = 0 := by
  rw [owed, List.sum_eq_zero_iff]
  intro n hn
  obtain ⟨g, hg, rfl⟩ := List.mem_map.mp hn
  rw [hf.2 g hg]
  rfl

/-- When all goroutines have returned, the session is not in the table. -/
theorem out_of_finished (h : Shape tr u) (hf : u.Finished) : u.inTable = false := by
  cases h.phase with
  | arriving _ hin _ _ => exact hin
  | opening hpos _ _ _ =>
    rw [hf.1] at hpos
    simp at hpos
  | running _ _ _ _ htries =>
    rcases htries with hstart | ⟨g, hg, htries⟩ | hout
    · rw [hf.1] at hstart
      cases hstart
    · have hmem := htries.1
      rw [hf.2 g hg] at hmem
      cases hmem
    · exact hout
  | refused _ _ _ _ hdrop =>
    rcases hdrop with hdrop | hout
    · rw [hf.1] at hdrop
      cases hdrop
    · exact hout

/-- An accepted session has been closed by then. -/
theorem onClose_of_finished (h : Shape tr u) (hf : u.Finished) (hacc : .accepted ∈ u.history) :
    u.history.count .onClose = 1 := by
  have hout := h.out_of_finished hf
  have hcloses := h.closes
  rw [owed_of_finished hf, zero_add] at hcloses
  have hphase := h.phase
  cases hphase with
  | arriving _ _ _ hhistory =>
    rw [hhistory] at hacc
    cases hacc
  | opening _ hnot _ _ => exact absurd hacc hnot
  | running _ _ _ htable _ =>
    rw [hout] at htable
    simpa [hcloses] using htable
  | refused _ hnot _ _ _ => exact absurd hacc hnot

end Shape

/-! ### Who gives the slot back -/

/-- `Done` was called, or somebody is sure to call it: the handler that gave up, who took
the session out of the table, or the read loop, which a handler that has not given up is
going to start. -/
def Slotted (tr : Transport) (u : Upgrade) : Prop :=
  u.history.count .done + owed u.others .done + pending .done u.handler +
      tr.tail.count .done * (u.handler.count .start + u.history.count .refused) =
    tr.tail.count .done + tr.body.count .done * u.history.count .taken + u.history.count .refused

namespace Slotted

variable {u u' : Upgrade}

theorem give_up (h : Slotted tr u) (hstart : u.handler.count .start = 1)
    (hnone : pending .done u.handler = 0) {g : List Op} (hg : g.count .start = 0)
    (hdone : pending .done g = 1) : Slotted tr { u.note .refused with handler := g } := by
  rw [Slotted, hnone, hstart, add_comm 1] at h
  simp only [Slotted, Upgrade.note, count_concat, reduceCtorEq, if_false, if_true, hg, hdone,
    zero_add, add_zero]
  omega

theorem handler_step (htr : tr.Closes) (hrefused : pending .done tr.refused = 1) (h : Slotted tr u)
    (hst : HandlerStep tr u u') : Slotted tr u' := by
  cases hst with
  | upgraded hpos | stored hpos | registered hpos =>
    rw [Slotted, hpos] at h
    exact h
  | accepted hpos =>
    rw [Slotted, hpos] at h
    simp only [Slotted, Upgrade.note, count_concat, reduceCtorEq, if_false]
    exact h
  | notUpgraded hpos => exact h.give_up (by rw [hpos]; rfl) (by rw [hpos]; rfl) rfl rfl
  | refused hpos =>
    have hg : .start ∉ tr.refused := by
      intro hmem
      rcases htr.refusing _ hmem with hop | ⟨a, hop, -⟩ <;> cases hop
    have hzero := List.count_eq_zero_of_not_mem hg
    rcases hpos with hpos | hpos <;>
      exact h.give_up (by rw [hpos]; rfl) (by rw [hpos]; rfl) hzero hrefused
  | started hpos =>
    have hpending : pending .done [.start] = pending .done [] := rfl
    rw [Slotted, hpos, hpending, List.count_singleton_self, mul_add, mul_one] at h
    simp only [Slotted, owed, List.map_append, List.sum_append, pending_loops, List.count_nil,
      zero_add]
    rw [owed] at h
    omega
  | dropped rest hpos _ | absent rest hpos _ =>
    rw [Slotted, hpos] at h
    simpa [Slotted, pending] using h
  | acted a rest hpos _ =>
    have hstart : (.act a :: rest).count .start = rest.count .start := by simp
    rw [Slotted, hpos, pending_cons_act, hstart] at h
    simp only [Slotted, u.others_perform a, count_done_perform,
      u.count_perform a (n := .taken) (by decide) (by decide),
      u.count_perform a (n := .refused) (by decide) (by decide)]
    omega

theorem other_step (h : Slotted tr u) (hst : OtherStep tr u u') : Slotted tr u' := by
  unfold Slotted at h ⊢
  cases hst with
  | idle howed =>
    rw [howed]
    exact h
  | took _ howed =>
    simp only [Upgrade.note, count_concat, reduceCtorEq, if_false, if_true, howed, add_zero,
      Nat.mul_succ]
    omega
  | acted a howed =>
    have ho := howed .done
    simp only [u.handler_perform a, count_done_perform,
      u.count_perform a (n := .taken) (by decide) (by decide),
      u.count_perform a (n := .refused) (by decide) (by decide)]
    omega
  | closed => exact h

theorem of_reachable (htr : tr.Closes) (hrefused : pending .done tr.refused = 1) {s : Upgrades}
    (hs : (upgrading tr).Reachable s) : ∀ u ∈ s.upgrades, Shape tr u ∧ Slotted tr u := by
  refine Shape.inv_of_reachable htr (fun _ => ?_) ?_ hs
  · simp [Slotted, Upgrade.admitted, handleUpgrade, owed, pending]
  · rintro u u' - h (hst | hst)
    · exact handler_step htr hrefused h hst
    · exact h.other_step hst

end Slotted

/-! ### Runs on a server without limits -/

namespace Upgrades

def unlimited : Upgrades := ⟨.new 0 0 0 0, [], []⟩

theorem unlimited_init (tr : Transport) : (upgrading tr).init unlimited :=
  ⟨⟨0, 0, 0, 0, rfl⟩, rfl, rfl⟩

/-- The next operation of the handler, or of another goroutine, of the first upgrade. -/
def handler : Arrival := .move 0 (.handler .ok)

def other (j : Nat) : Arrival := .move 0 (.other j .ok)

end Upgrades

end SharkSocket.Shared
