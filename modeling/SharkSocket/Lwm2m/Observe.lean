import SharkSocket.Coap.Effects
import SharkSocket.Lwm2m.Command

/-!
# Observing a resource in `lwm2m` mode

The application hands `NewCoAPResponder(server)` to the CoAP server and sets
`server.OnWrite` to its `NotifyObservers`.  `wired` is the two together: requests
wait for the `Responder`, run it in any order, and are answered later; a
successful write notifies the observers of `path.String()`.

A relation is stored under the payload of the GET that asked for it.  For a
`read` command that is the whole command, never the path alone
(`Reads.ne_string`), so a write reaches a client exactly when it also holds a
relation under the bare path (`write_notifies_iff`).
-/

namespace SharkSocket.Lwm2m

open Lib
open Coap (Turn World Waiting Input Event Config Session Observer Message Options)

structure Wired where
  turn : Turn
  lwm2m : Server
  waiting : List Waiting
  answered : List (Waiting × Bytes)

inductive WiredAction
  | input (now : Int) (i : Input)
  | call (n : Nat) (now : Int) (w : World) (walk : WalkOrder (Int × ObjectDefinition))
  | answer (n : Nat) (w : World)
  | write (endpoint : Bytes) (path : ObjectPath) (value : Bytes) (now : Int) (w : World)

/-- The world in which `Responder` is `NewCoAPResponder(server)`. -/
def responder (w : World) (a : Server.Answer) : World :=
  { w with handler := a.result, handlerCloses := false, notifies := a.written }

namespace Wired

def step (cfg : Config) (s : Wired) : WiredAction → Option Wired
  | .input now i =>
    match s.turn.receive cfg now i with
    | (none, t) => some { s with turn := t }
    | (some q, t) => some { s with turn := t, waiting := s.waiting ++ [q] }
  | .call n now w walk =>
    match s.waiting[n]? with
    | none => none
    | some q =>
      let a := s.lwm2m.handleCoAPPayload walk now q.payload
      let rest := s.waiting.eraseIdx n
      match s.turn.runApplication cfg (responder w a) now q.sess q.msg q.payload with
      | (none, t) => some ⟨t, a.server, rest, s.answered⟩
      | (some body, t) => some ⟨t, a.server, rest, s.answered ++ [(q, body)]⟩
  | .answer n w =>
    match s.answered[n]? with
    | none => none
    | some (q, body) =>
      some { s with
        turn := s.turn.respond cfg w q.sess q.msg q.dedup q.registered body
        answered := s.answered.eraseIdx n }
  | .write endpoint path value now w =>
    match s.lwm2m.write now endpoint path value with
    | (.error _, lwm2m) => some { s with lwm2m := lwm2m }
    | (.ok call, lwm2m) =>
      some { s with lwm2m := lwm2m, turn := s.turn.notifyObservers w now call.1 call.2 }

end Wired

/-- The LwM2M server may have registrations and objects from before. -/
def wired (cfg : Config) : Machine Wired WiredAction where
  init s := (∃ manager quota, s.turn = ⟨.new manager quota, []⟩) ∧ s.waiting = [] ∧ s.answered = []
  step := Wired.step cfg

/-! ### Commands -/

theorem printable_string (p : ObjectPath) : ∀ b ∈ p.string, Printable b := by
  have hslash : Printable 0x2f := by decide
  intro b hb
  simp only [ObjectPath.string, List.mem_append, List.mem_cons] at hb
  rcases hb with ((rfl | hb) | (rfl | hb)) | (rfl | hb)
  · exact hslash
  · exact printable_decimal _ b hb
  · exact hslash
  · exact printable_decimal _ b hb
  · exact hslash
  · exact printable_decimal _ b hb

variable {endpoint value : Bytes} {path : ObjectPath} {now : Int} {cfg : Config} {s : Wired}

/-- A `read` command is three words, the name of a resource is one. -/
theorem Reads.ne_string {payload : Bytes} (h : Reads payload endpoint path) (p : ObjectPath) :
    payload ≠ p.string := by
  obtain ⟨operation, raw, hfields, -, -⟩ := h
  rintro rfl
  rw [fields_printable (printable_string p) (by simp [ObjectPath.string])] at hfields
  cases hfields

theorem call_of_write {s : Server} {call : Bytes × Bytes}
    (h : (s.write now endpoint path value).1 = .ok call) : call = (path.string, value) := by
  unfold Server.write at h
  split at h
  · cases h
  split at h
  · cases h
  cases h
  rfl

/-- What a successful write command publishes. -/
theorem written_of_writes {s : Server} {walk : WalkOrder (Int × ObjectDefinition)}
    {payload body : Bytes} (h : Writes payload endpoint path value)
    (hok : (s.handleCoAPPayload walk now payload).result = .ok body) :
    (s.handleCoAPPayload walk now payload).written = [(path.string, value)] := by
  obtain ⟨operation, raw, word, words, hfields, hop, hpath, rfl⟩ := h
  have heq : s.handleCoAPPayload walk now payload =
      s.handleWrite now (operation :: endpoint :: raw :: word :: words) := by
    unfold Server.handleCoAPPayload Server.handleCoAPPayloadAt
    rw [hfields]
    dsimp only
    rw [hop, if_neg (by decide), if_neg (by decide), if_neg (by decide), if_pos rfl]
  rw [heq] at hok ⊢
  simp only [Server.handleWrite, hpath] at hok ⊢
  rcases hw : s.write now endpoint path (List.intercalate [0x20] (word :: words)) with ⟨e | call, s'⟩
  · rw [hw] at hok
    cases hok
  have hcall : call = (path.string, List.intercalate [0x20] (word :: words)) :=
    call_of_write (congrArg Prod.fst hw)
  rw [hcall]

/-! ### One notification for each relation -/

/-- A datagram that notifies `remote` of `value`. -/
def isNotification (remote value : Bytes) : Event → Bool
  | .sent target data _ =>
    decide (target = remote) && match Coap.parse data with
      | .error _ => false
      | .ok m => decide (m.type = Coap.typeCON ∧ m.code = Coap.codeContent ∧
          Coap.observeOption ∈ m.options ∧ m.payload = value)
  | _ => false

theorem isNotification_sent {target remote token data : Bytes} {id : UInt16} {seq : UInt32}
    {ok : Bool} (h : (Turn.notification id token seq value).marshal = .ok data) :
    isNotification remote value (.sent target data ok) = decide (target = remote) := by
  have hparse := Coap.parse_of_marshal (Coap.shortValues_observe seq) h
  simp only [isNotification, hparse]
  simp [Turn.notification]

section Notify

variable {w : World} {now : Int} {t : Turn} {resource value remote : Bytes} {sess : Session}

/-- What an iteration of `NotifyObservers` leaves alone. -/
structure SameSessions (t u : Turn) : Prop where
  peers : u.srv.peers = t.srv.peers
  conns : u.srv.conns = t.srv.conns
  state : u.srv.state = t.srv.state

theorem SameSessions.trans {t u v : Turn} (h : SameSessions t u) (g : SameSessions u v) :
    SameSessions t v :=
  ⟨g.peers.trans h.peers, g.conns.trans h.conns, g.state.trans h.state⟩

theorem SameSessions.find {t u : Turn} (h : SameSessions t u) (w : World) (remote : Bytes) :
    u.findSessionByRemote w remote = t.findSessionByRemote w remote := by
  unfold Turn.findSessionByRemote
  rw [h.peers, h.conns]

/-- The session found for a remote has that remote. -/
theorem remote_of_find (h : t.Tidy) (hfind : t.findSessionByRemote w remote = some sess) :
    sess.remote = remote := by
  unfold Turn.findSessionByRemote at hfind
  split at hfind
  · rename_i hpeer
    cases hfind
    exact h.keyed remote sess hpeer
  · simpa using List.find?_some hfind

theorem countP_emit (u : Turn) {e : Event} (he : isNotification remote value e = false) :
    (u.emit e).log.countP (isNotification remote value) =
      u.log.countP (isNotification remote value) := by
  show List.countP _ (u.log ++ [e]) = _
  rw [List.countP_append, List.countP_singleton, he]
  rfl

/-- A send is one datagram, if the session is open. -/
theorem send_spec (w : World) (t : Turn) (target : Session) (remote : Bytes) {id : UInt16}
    {token data : Bytes} {seq : UInt32}
    (hdata : (Turn.notification id token seq value).marshal = .ok data) :
    SameSessions t (t.send w target data).2 ∧
    (t.send w target data).2.log.countP (isNotification remote value) =
      t.log.countP (isNotification remote value) +
        if t.srv.state target.id = .active ∧ target.remote = remote then 1 else 0 := by
  unfold Turn.send
  cases hstate : t.srv.state target.id with
  | closed =>
    refine ⟨⟨rfl, rfl, rfl⟩, ?_⟩
    simp
  | active =>
    refine ⟨⟨rfl, rfl, rfl⟩, ?_⟩
    show List.countP _ (t.log ++ [.sent target.remote data _]) = _
    rw [List.countP_append, List.countP_singleton, isNotification_sent hdata]
    simp

/-- One iteration: a datagram to the observer's remote if its session is open. -/
theorem notifyOne_spec (now : Int) (resource value : Bytes) (h : t.Tidy) {obs : Observer}
    (hobs : obs.token.length ≤ 8) (hfind : t.findSessionByRemote w remote = some sess)
    (hopen : t.srv.state sess.id = .active) :
    SameSessions t (Turn.notifyOne w now resource value t obs) ∧
    (Turn.notifyOne w now resource value t obs).log.countP (isNotification remote value) =
      t.log.countP (isNotification remote value) + if obs.remote = remote then 1 else 0 := by
  -- the turn that sends differs from `t` in the counters and in an event that is no datagram
  have hsame : SameSessions t ((t.nextSeq obs).2.issue obs.remote) := ⟨rfl, rfl, rfl⟩
  have hcount : ((t.nextSeq obs).2.issue obs.remote).log.countP (isNotification remote value) =
      t.log.countP (isNotification remote value) := countP_emit _ rfl
  have hsent : ∀ target data, t.findSessionByRemote w obs.remote = some target →
      (t.notificationTo obs value).marshal = .ok data →
      SameSessions t (((t.nextSeq obs).2.issue obs.remote).send w target data).2 ∧
      (((t.nextSeq obs).2.issue obs.remote).send w target data).2.log.countP
          (isNotification remote value) =
        t.log.countP (isNotification remote value) + if obs.remote = remote then 1 else 0 := by
    intro target data hfound hm
    obtain ⟨hsend, hone⟩ := send_spec w ((t.nextSeq obs).2.issue obs.remote) target remote hm
    have hiff : (((t.nextSeq obs).2.issue obs.remote).srv.state target.id = .active ∧
        target.remote = remote) ↔ obs.remote = remote := by
      have hto := remote_of_find h hfound
      constructor
      · rintro ⟨-, rfl⟩
        exact hto.symm
      · rintro rfl
        rw [hfind] at hfound
        cases hfound
        exact ⟨hopen, hto⟩
    simp only [hiff, hcount] at hone
    exact ⟨hsame.trans hsend, hone⟩
  generalize hu : Turn.notifyOne w now resource value t obs = u
  cases Turn.notifyOne_outcome hu with
  | gone hgone =>
    have hne : obs.remote ≠ remote := by
      rintro rfl
      rw [hfind] at hgone
      cases hgone
    rw [if_neg hne]
    exact ⟨⟨rfl, rfl, rfl⟩, rfl⟩
  | unencoded hm =>
    obtain ⟨data, hdata⟩ := Turn.exists_marshal_notification t hobs value
    rw [hdata] at hm
    cases hm
  | dropped hfound hm herr | tracked hfound hm herr =>
    obtain ⟨hsend, hone⟩ := hsent _ _ hfound hm
    exact ⟨⟨hsend.peers, hsend.conns, hsend.state⟩, (countP_emit _ rfl).trans hone⟩

/-- `NotifyObservers` sends a remote as many datagrams as it has relations. -/
theorem count_notifyList (l : List Observer) (h : t.Tidy) (hl : ∀ obs ∈ l, obs.token.length ≤ 8)
    (hfind : t.findSessionByRemote w remote = some sess) (hopen : t.srv.state sess.id = .active) :
    (l.foldl (Turn.notifyOne w now resource value) t).log.countP (isNotification remote value) =
      t.log.countP (isNotification remote value) + l.countP (·.remote = remote) := by
  induction l generalizing t with
  | nil => rfl
  | cons obs l ih =>
    obtain ⟨hsame, hcount⟩ := notifyOne_spec now resource value h (hl obs List.mem_cons_self) hfind
      hopen
    have htidy : (Turn.notifyOne w now resource value t obs).Tidy :=
      h.effects (p := .any) (Turn.effects_notifyOne (hl obs List.mem_cons_self))
    have hnext := ih htidy
      (fun o ho => hl o (List.mem_cons_of_mem obs ho)) (by rw [hsame.find]; exact hfind)
      (by rw [hsame.state]; exact hopen)
    rw [List.foldl_cons, hnext, hcount, Nat.add_assoc]
    by_cases hr : obs.remote = remote
    · simp [hr, Nat.add_comm]
    · simp [hr]

theorem count_notifyObservers (w : World) (now : Int) (resource value : Bytes) (h : t.Tidy)
    (hfind : t.findSessionByRemote w remote = some sess) (hopen : t.srv.state sess.id = .active) :
    (t.notifyObservers w now resource value).log.countP (isNotification remote value) =
      t.log.countP (isNotification remote value) +
        (t.srv.observers.subsOf resource).toList.countP (·.2.remote = remote) := by
  unfold Turn.notifyObservers
  rw [count_notifyList _ h ?_ hfind hopen]
  · unfold Coap.ObserverRegistry.notify WalkOrder.values
    rw [List.countP_map, (w.observerWalk.perm _).countP_eq]
    rfl
  · intro obs hobs
    exact h.short.notify hobs

end Notify

/-! ### Runs -/

theorem tidy_step {s' : Wired} {a : WiredAction} (h : s.turn.Tidy) (hstep : s.step cfg a = some s') :
    s'.turn.Tidy := by
  cases a with
  | input now i =>
    have hr := h.receive cfg now i
    simp only [Wired.step] at hstep
    split at hstep <;> (rename_i he; rw [he] at hr; cases hstep; exact hr)
  | call n now w walk =>
    simp only [Wired.step] at hstep
    split at hstep
    · cases hstep
    rename_i q _
    have hr := h.runApplication cfg
      (responder w (s.lwm2m.handleCoAPPayload walk now q.payload)) now q.sess q.msg q.payload
    split at hstep <;> (rename_i he; rw [he] at hr; cases hstep; exact hr)
  | answer n w =>
    simp only [Wired.step] at hstep
    split at hstep
    · cases hstep
    cases hstep
    exact h.effects (p := .any) Turn.effects_respond
  | write endpoint path value now w =>
    simp only [Wired.step] at hstep
    split at hstep
    · cases hstep
      exact h
    cases hstep
    exact h.notifyObservers w now _ _

theorem tidy_of_reachable (h : (wired cfg).Reachable s) : s.turn.Tidy := by
  refine Machine.Reaches.inv (I := fun s : Wired => s.turn.Tidy) ?_ ?_ h
  · rintro s ⟨⟨manager, quota, hturn⟩, -⟩
    rw [hturn]
    refine ⟨?_, ?_⟩
    · intro remote sess hs
      simp [Coap.Server.new] at hs
    · intro resource subs hs
      simp [Coap.Server.new, Coap.ObserverRegistry.new] at hs
  · intro s a s' hs _ hstep
    exact tidy_step hs hstep

/-- A write command that succeeds notifies the observers of the bare path. -/
theorem turn_of_write {s' : Wired} {n : Nat} {w : World} {walk : WalkOrder (Int × ObjectDefinition)}
    {q : Waiting} {body : Bytes} (hcfg : cfg.hasResponder = true)
    (hstep : s.step cfg (.call n now w walk) = some s') (hq : s.waiting[n]? = some q)
    (hw : Writes q.payload endpoint path value)
    (hok : (s.lwm2m.handleCoAPPayload walk now q.payload).result = .ok body) :
    s'.turn = Turn.notifyObservers (responder w (s.lwm2m.handleCoAPPayload walk now q.payload)) now
      (s.turn.emit (.handler q.msg.type ⟨q.sess.remote, q.msg.messageID⟩ q.payload))
      path.string value := by
  have hwritten := written_of_writes hw hok
  simp only [Wired.step, hq, Turn.runApplication, if_pos hcfg] at hstep
  simp only [responder, hok, hwritten] at hstep
  cases hstep
  rfl

/-- In `lwm2m` mode a successful `write e p v` sends a client with an open session
exactly one notification of `v` if and only if the client holds exactly one
relation under the bare path; a relation made by a `read` command is never
stored there. -/
theorem write_notifies_iff (cfg : Config) (s s' : Wired) (h : (wired cfg).Reachable s)
    (hcfg : cfg.hasResponder = true) (n : Nat) (now : Int) (w : World)
    (walk : WalkOrder (Int × ObjectDefinition))
    (hstep : s.step cfg (.call n now w walk) = some s') (q : Waiting)
    (hq : s.waiting[n]? = some q) (endpoint value body : Bytes) (path : ObjectPath)
    (hw : Writes q.payload endpoint path value)
    (hok : (s.lwm2m.handleCoAPPayload walk now q.payload).result = .ok body)
    (remote : Bytes) (sess : Session) (hfind : s.turn.findSessionByRemote w remote = some sess)
    (hopen : s.turn.srv.state sess.id = .active) :
    (s'.turn.log.countP (isNotification remote value) =
        s.turn.log.countP (isNotification remote value) + 1 ↔
      (s.turn.srv.observers.subsOf path.string).toList.countP (·.2.remote = remote) = 1) ∧
    ∀ command endpoint', Reads command endpoint' path → command ≠ path.string := by
  refine ⟨?_, fun command endpoint' hread => hread.ne_string path⟩
  have htidy : (s.turn.emit (.handler q.msg.type ⟨q.sess.remote, q.msg.messageID⟩
      q.payload)).Tidy := (tidy_of_reachable h).of_eq rfl rfl
  have hcount := count_notifyObservers
    (responder w (s.lwm2m.handleCoAPPayload walk now q.payload)) now path.string value htidy hfind
    hopen
  have hbefore : (s.turn.emit (.handler q.msg.type ⟨q.sess.remote, q.msg.messageID⟩
      q.payload)).log.countP (isNotification remote value) =
      s.turn.log.countP (isNotification remote value) := by
    simp [Turn.emit, isNotification]
  rw [turn_of_write hcfg hstep hq hw hok, hcount, hbefore]
  exact Nat.add_left_cancel_iff

/-- Plugins that let the command pass. -/
def passing (command : Bytes) : World := { Coap.steadyWorld with onMessage := .ok command }

/-- A CON request from remote `a`. -/
def request (id : UInt16) (code : UInt8) (options : Options) (command : Bytes) : WiredAction :=
  let data := match (⟨Coap.typeCON, code, id, [7], options, command⟩ : Message).marshal with
    | .ok data => data
    | .error _ => []
  .input 0 (.datagram [0x61] none data (passing command))

def callAndAnswer : List WiredAction :=
  [.call 0 0 Coap.steadyWorld .id, .answer 0 Coap.steadyWorld]

/-- Remote `a` registers an endpoint, writes a resource, observes it, and asks to
write it again. -/
def observeThenWrite : List WiredAction :=
  request 1 Coap.codePost ∅ (ascii "register e 60") :: callAndAnswer ++
  request 2 Coap.codePut ∅ (ascii "write e /3/0/0 x") :: callAndAnswer ++
  request 3 Coap.codeGet ((∅ : Options).insert Coap.observeOption []) (ascii "read e /3/0/0") ::
    callAndAnswer ++
  [request 4 Coap.codePut ∅ (ascii "write e /3/0/0 y")]

/-- Remote `a` holds the relation of its `read` command and no other. -/
def observing (s : Wired) : Bool :=
  (s.turn.srv.observers.find (ascii "read e /3/0/0") [0x61] [7]).isSome &&
    decide ((s.turn.srv.observers.subsOf (ascii "/3/0/0")).toList = []) &&
    decide (s.turn.srv.peers[([0x61] : Bytes)]? = some ⟨1, [0x61], none, false⟩) &&
    decide (s.turn.srv.state 1 = .active)

/-- The answers to the `read` command: 2.05 with the value and an Observe option. -/
def readAnswers (s : Wired) : Nat :=
  s.turn.log.countP fun
    | .sent _ data ok =>
      ok && match Coap.parse data with
        | .error _ => false
        | .ok m => decide (m.type = Coap.typeACK ∧ m.code = Coap.codeContent ∧ m.messageID = 3 ∧
            Coap.observeOption ∈ m.options ∧ m.payload = ascii "x")
    | _ => false

/-- Where the run stands when the second write waits for the `Responder`. -/
def startWired : Option Wired :=
  (wired Coap.responderConfig).run ⟨⟨Coap.freshServer, []⟩, .new, [], []⟩ observeThenWrite

theorem reachable_startWired (h : startWired = some s) : (wired Coap.responderConfig).Reachable s :=
  Machine.reachable_of_run observeThenWrite
    (⟨⟨_, _, rfl⟩, rfl, rfl⟩) h

/-- The client's `read` with Observe 0 is answered with the value and its
relation stands, its session is open, and the write succeeds without a
notification. -/
theorem write_after_read_silent :
    ∃ s s', (wired Coap.responderConfig).Reachable s ∧ observing s = true ∧ readAnswers s = 1 ∧
      s.waiting.map (·.payload) = [ascii "write e /3/0/0 y"] ∧
      s.step Coap.responderConfig (.call 0 0 Coap.steadyWorld .id) = some s' ∧
      s'.answered.map (·.2) = [ascii "changed /3/0/0"] ∧
      s'.turn.log.countP (isNotification [0x61] (ascii "y")) = 0 := by
  have hrun : (startWired.bind fun s =>
      (s.step Coap.responderConfig (.call 0 0 Coap.steadyWorld .id)).map fun s' =>
        ((observing s, readAnswers s, s.waiting.map (·.payload)), s'.answered.map (·.2),
          s'.turn.log.countP (isNotification [0x61] (ascii "y")))) =
      some ((true, 1, [ascii "write e /3/0/0 y"]), [ascii "changed /3/0/0"], 0) := by
    decide +kernel
  obtain ⟨s, hs, hrest⟩ := Option.bind_eq_some_iff.mp hrun
  obtain ⟨s', hs', hfacts⟩ := Option.map_eq_some_iff.mp hrest
  simp only [Prod.mk.injEq] at hfacts
  obtain ⟨⟨hobs, hread, hwait⟩, hans, hcount⟩ := hfacts
  exact ⟨s, s', reachable_startWired hs, hobs, hread, hwait, hs', hans, hcount⟩

theorem write_notifies_iff_secondWrite :
    ∃ s s', (wired Coap.responderConfig).Reachable s ∧
      s.step Coap.responderConfig (.call 0 0 Coap.steadyWorld .id) = some s' ∧
      (s'.turn.log.countP (isNotification [0x61] (ascii "y")) =
          s.turn.log.countP (isNotification [0x61] (ascii "y")) + 1 ↔
        (s.turn.srv.observers.subsOf (⟨3, 0, 0⟩ : ObjectPath).string).toList.countP
          (·.2.remote = [0x61]) = 1) := by
  have hrun : (startWired.bind fun s =>
      (s.step Coap.responderConfig (.call 0 0 Coap.steadyWorld .id)).map fun _ =>
        ((s.turn.findSessionByRemote Coap.steadyWorld [0x61], s.turn.srv.state 1),
          s.waiting.map (·.payload), (s.lwm2m.handleCoAPPayload .id 0
            (ascii "write e /3/0/0 y")).result.toOption)) =
      some ((some ⟨1, [0x61], none, false⟩, .active), [ascii "write e /3/0/0 y"],
        some (ascii "changed /3/0/0")) := by
    decide +kernel
  obtain ⟨s, hs, hrest⟩ := Option.bind_eq_some_iff.mp hrun
  obtain ⟨s', hs', hfacts⟩ := Option.map_eq_some_iff.mp hrest
  simp only [Prod.mk.injEq] at hfacts
  obtain ⟨⟨hfind, hopen⟩, hwait, hresult⟩ := hfacts
  obtain ⟨q, hq, hpayload⟩ : ∃ q, s.waiting[0]? = some q ∧ q.payload = ascii "write e /3/0/0 y" := by
    cases hw : s.waiting with
    | nil =>
      rw [hw] at hwait
      cases hwait
    | cons q l =>
      rw [hw] at hwait
      exact ⟨q, rfl, (List.cons.inj hwait).1⟩
  have hwrites : Writes q.payload (ascii "e") ⟨3, 0, 0⟩ (ascii "y") := by
    rw [hpayload]
    exact ⟨ascii "write", ascii "/3/0/0", ascii "y", [], by decide +kernel, by decide +kernel,
      by decide +kernel, by decide +kernel⟩
  have hok : (s.lwm2m.handleCoAPPayload .id 0 q.payload).result = .ok (ascii "changed /3/0/0") := by
    rw [hpayload]
    cases hr : (s.lwm2m.handleCoAPPayload .id 0 (ascii "write e /3/0/0 y")).result with
    | error e =>
      rw [hr] at hresult
      cases hresult
    | ok body =>
      rw [hr] at hresult
      exact congrArg _ (Option.some.inj hresult)
  exact ⟨s, s', reachable_startWired hs, hs',
    (write_notifies_iff Coap.responderConfig s s' (reachable_startWired hs) rfl 0 0
      Coap.steadyWorld .id hs' q hq (ascii "e") (ascii "y") _ ⟨3, 0, 0⟩ hwrites hok [0x61] _ hfind
      hopen).1⟩

end SharkSocket.Lwm2m
