import SharkSocket.Coap.Carries
import SharkSocket.Coap.Ledger
import SharkSocket.Lib.Pool

/-!
# Notifications, ACKs and retransmissions side by side

`NotifyObservers` sends a notification and then tracks it; `retransmitDue` takes
an entry under the lock and sends it after the lock is released; the read loops
process ACKs.  In `system` these run as separate parties: any number of
`NotifyObservers` calls, one retransmit tick at a time, and every other input of
the server, each of which is one step.

An ACK that is processed while a goroutine is between its send and its tracking,
or between taking an entry and sending it, misses the entry.  Apart from those
two windows an acknowledged notification is gone for good
(`acknowledged_settled`).
-/

namespace SharkSocket.Coap

open Lib
open SharkSocket.Runtime (SessionManager)
open SharkSocket.Shared (PeerQuota)
open Std (ExtTreeMap)

def Input.isRetransmitDue : Input → Bool
  | .retransmitDue _ _ => true
  | _ => false

/-- The ledger holds of a server and its log. -/
def Turn.Keeps (b : Busy) (t : Turn) : Prop := Ledger b t.log t.srv.pendingNotifies

/-- What a goroutine holds after preparing a notification, and after its send. -/
def Busy.addSending (b : Busy) (o : Option Turn.Outgoing) : Busy :=
  match o with
  | none => b
  | some o => { b with sending := o.key :: b.sending }

def Busy.afterSend (b : Busy) (o : Turn.Outgoing) (ok : Bool) : Busy :=
  if ok then ⟨b.sending.erase o.key, o.key :: b.tracking, b.resending⟩
  else { b with sending := b.sending.erase o.key }

namespace Turn

section

variable {b : Busy} {t u : Turn}

variable (h : t.Keeps b)
include h

theorem Keeps.calm (hp : u.srv.pendingNotifies = t.srv.pendingNotifies)
    (hl : LogExt Event.idle t u) : u.Keeps b := by
  obtain ⟨l, hlog, hidle⟩ := hl
  rw [Keeps, hlog, hp]
  exact Ledger.append_idle h l hidle

theorem Keeps.reply {dedup : Option ExchangeKey} (hr : Reply dedup t u) :
    u.Keeps b := h.calm hr.pending (hr.log.mono Event.idle_of_plain)

theorem Keeps.frame (hf : Frame Event.plain t u) : u.Keeps b :=
  h.reply (hf.reply none)

theorem Keeps.emit {e : Event} (he : e.idle) : (t.emit e).Keeps b :=
  Ledger.concat_idle h he

theorem Keeps.untrack (k : ExchangeKey) : (t.untrackNotify k).Keeps b :=
  Ledger.shrink h (fun _ => ExtTreeMap.mem_of_mem_erase)

end

/-! ### One notification -/

variable {b : Busy} {t : Turn} (w : World) (now : Int)

theorem keeps_notifyPrepare (h : t.Keeps b) (resource payload : Bytes) (obs : Observer) :
    (t.notifyPrepare w resource payload obs).2.Keeps
      (Busy.addSending b (t.notifyPrepare w resource payload obs).1) := by
  unfold notifyPrepare
  split
  · exact h.frame upkeep_removeObserver.frame.plain
  have hid : (t.nextSeq obs).2.nextMessageID.2.Keeps b := h.calm rfl (.of_eq rfl)
  dsimp only
  split
  · exact hid
  · exact Ledger.issue hid _

theorem keeps_notifySend (h : t.Keeps b) (o : Outgoing) (ho : o.key ∈ b.sending) :
    (t.notifySend w o).2.Keeps (Busy.afterSend b o (t.notifySend w o).1) := by
  have hs : (t.send w o.sess o.data).2.Keeps b := h.frame calm_send.toFrame
  unfold notifySend
  rcases hsend : t.send w o.sess o.data with ⟨_ | e, u⟩
  · rw [hsend] at hs
    exact Ledger.sent_first hs ho
  rw [hsend] at hs
  exact Ledger.drop (hs.frame upkeep_removeObserver.frame.plain) ho

theorem keeps_notifyTrack (h : t.Keeps b) (o : Outgoing) (ho : o.key ∈ b.tracking) :
    (t.notifyTrack w now o).Keeps { b with tracking := b.tracking.erase o.key } :=
  Ledger.track h ho _

theorem keeps_notifyOne (h : t.Keeps b) (resource payload : Bytes) (obs : Observer) :
    (notifyOne w now resource payload t obs).Keeps b := by
  have hp := keeps_notifyPrepare w h resource payload obs
  unfold notifyOne
  split
  · rename_i u he
    rw [he] at hp
    exact hp
  rename_i o u he
  rw [he] at hp
  have hs := keeps_notifySend w hp o List.mem_cons_self
  split
  · rename_i v hv
    rw [hv] at hs
    simpa [Busy.addSending, Busy.afterSend] using hs
  rename_i v hv
  rw [hv] at hs
  have ht := keeps_notifyTrack w now hs o List.mem_cons_self
  simpa [Busy.addSending, Busy.afterSend] using ht

theorem carries_keeps (b : Busy) : Carries (Keeps b) where
  frame h hf := h.frame hf.plain
  notifyOne w now resource payload obs h := keeps_notifyOne w now h resource payload obs

/-! ### Retransmission -/

theorem keeps_retransmitTake (h : t.Keeps b) (k : ExchangeKey) (hb : b.resending = none) :
    (t.retransmitTake now k).2.Keeps
      { b with resending := (t.retransmitTake now k).1.map fun _ => k } := by
  unfold retransmitTake
  split
  · simpa only [Option.map_none, ← hb] using h
  rename_i pn hp
  exact Ledger.take h (mem_iff_getElem?.mpr ⟨_, hp⟩) _

theorem keeps_retransmitSend (h : t.Keeps b) (k : ExchangeKey) (hb : b.resending = some k)
    (data : Bytes) : (t.retransmitSend w k data).Keeps { b with resending := none } := by
  unfold retransmitSend
  split
  · exact Ledger.release (h.untrack k)
  rename_i sess _
  have hs : (t.send w sess data).2.Keeps b := h.frame calm_send.toFrame
  split
  · rename_i e u he
    rw [he] at hs
    exact Ledger.release (hs.untrack k)
  rename_i u he
  rw [he] at hs
  exact Ledger.resent hs hb

/-! ### `handleCoAPMessage` and the loops around it -/

variable (sess : Session) (msg : Message)

theorem keeps_handleRequest (cfg : Config) (h : t.Keeps b) (dedup : Option ExchangeKey) :
    (t.handleRequest cfg w now sess msg dedup).Keeps b := by
  refine (carries_keeps b).handleRequest (.of_reply cfg w sess msg ?_ ?_ ?_) h now
  · intro u hu
    exact hu.emit trivial
  · intro u payload hu
    exact hu.emit trivial
  · intro u v hu hr
    exact hu.reply hr

theorem keeps_handleMessage (cfg : Config) (h : t.Keeps b)
    (hack : msg.type = typeACK → (⟨sess.remote, msg.messageID⟩ : ExchangeKey) ∉ b.tracking ∧
      b.resending ≠ some ⟨sess.remote, msg.messageID⟩) :
    (t.handleMessage cfg w now sess msg).Keeps b := by
  unfold handleMessage
  extract_lets key
  split
  · rename_i ht
    exact Ledger.ack h (hack ht).1 (hack ht).2
  split
  · have ht : (t.takePendingNotify key).2.Keeps b := by
      unfold takePendingNotify
      split
      · exact h
      · exact h.untrack key
    split <;> (rename_i he; rw [he] at ht; exact ht.calm rfl (.of_eq rfl))
  split
  · split
    · exact h.frame calm_sendACKMsg.toFrame
    · exact h
  split
  · split
    · exact h.frame calm_replyToDuplicate.toFrame
    have hs : (t.storeSeen key).Keeps b := h.calm rfl (.of_eq rfl)
    exact keeps_handleRequest w now sess msg cfg hs _
  · exact keeps_handleRequest w now sess msg cfg h _

theorem keeps_serve (cfg : Config) (h : t.Keeps b) (i : Input) (hi : i.isRetransmitDue = false)
    (hack : ∀ k msg, t.received cfg now i = some (k, msg) → msg.type = typeACK →
      k ∉ b.tracking ∧ b.resending ≠ some k) : (t.serve cfg now i).Keeps b := by
  have hd : (deliver cfg now t i).2.Keeps b := by
    refine (carries_keeps b).deliver h cfg now i ?_ fun _ => h.calm rfl (.of_eq rfl)
    rintro w walk rfl
    cases hi
  refine serve_of_handleMessage hd (fun _ hu => hu) ?_
  intro c u msg hu hm _
  exact keeps_handleMessage c.w now c.sess msg cfg hu (hack _ msg hm)

end Turn

/-! ### The system -/

inductive NotifierPc
  | next
  | sending (o : Turn.Outgoing)
  | tracking (o : Turn.Outgoing)

/-- A `NotifyObservers` call: the observers it still has to serve, and where it
is with the current one. -/
structure Notifier where
  resource : Bytes
  payload : Bytes
  todo : List Observer
  pc : NotifierPc

def Notifier.sendingKey (n : Notifier) : Option ExchangeKey :=
  match n.pc with
  | .sending o => some o.key
  | _ => none

def Notifier.trackingKey (n : Notifier) : Option ExchangeKey :=
  match n.pc with
  | .tracking o => some o.key
  | _ => none

/-- A `retransmitDue` call after its scan: the keys still due, and the entry it
has taken and not yet sent. -/
structure Retransmitter where
  now : Int
  due : List ExchangeKey
  abandoned : List (Bytes × Bytes)
  sending : Option (ExchangeKey × Bytes)

/-- `turn` is the server with the log of everything since its start. -/
structure System where
  turn : Turn
  notifiers : List Notifier
  tick : Option Retransmitter

inductive Action
  | input (now : Int) (i : Input)
  | start (resource payload : Bytes) (w : World)
  | prepare (n : Nat) (w : World)
  | send (n : Nat) (w : World)
  | track (n : Nat) (now : Int) (w : World)
  | scan (now : Int) (walk : WalkOrder (ExchangeKey × PendingNotify))
  | take
  | resend (w : World)
  | finish

namespace System

variable (s : System)

def busy : Busy where
  sending := s.notifiers.filterMap Notifier.sendingKey
  tracking := s.notifiers.filterMap Notifier.trackingKey
  resending := s.tick.bind fun r => r.sending.map Prod.fst

def setNotifier (t : Turn) (n : Nat) (x : Notifier) : System :=
  { s with turn := t, notifiers := s.notifiers.set n x }

def stepPrepare (n : Nat) (w : World) : Option System :=
  match s.notifiers[n]? with
  | some ⟨resource, payload, obs :: todo, .next⟩ =>
    match s.turn.notifyPrepare w resource payload obs with
    | (none, t) => some (s.setNotifier t n ⟨resource, payload, todo, .next⟩)
    | (some o, t) => some (s.setNotifier t n ⟨resource, payload, todo, .sending o⟩)
  | _ => none

def stepSend (n : Nat) (w : World) : Option System :=
  match s.notifiers[n]? with
  | some ⟨resource, payload, todo, .sending o⟩ =>
    match s.turn.notifySend w o with
    | (false, t) => some (s.setNotifier t n ⟨resource, payload, todo, .next⟩)
    | (true, t) => some (s.setNotifier t n ⟨resource, payload, todo, .tracking o⟩)
  | _ => none

def stepTrack (n : Nat) (now : Int) (w : World) : Option System :=
  match s.notifiers[n]? with
  | some ⟨resource, payload, todo, .tracking o⟩ =>
    some (s.setNotifier (s.turn.notifyTrack w now o) n ⟨resource, payload, todo, .next⟩)
  | _ => none

def stepTake : Option System :=
  match s.tick with
  | some ⟨now, key :: due, abandoned, none⟩ =>
    match s.turn.retransmitTake now key with
    | (none, t) => some { s with turn := t, tick := some ⟨now, due, abandoned, none⟩ }
    | (some data, t) =>
      some { s with turn := t, tick := some ⟨now, due, abandoned, some (key, data)⟩ }
  | _ => none

def stepResend (w : World) : Option System :=
  match s.tick with
  | some ⟨now, due, abandoned, some (key, data)⟩ =>
    some { s with
      turn := s.turn.retransmitSend w key data
      tick := some ⟨now, due, abandoned, none⟩ }
  | _ => none

def stepFinish : Option System :=
  match s.tick with
  | some ⟨_, [], abandoned, none⟩ =>
    some { s with turn := abandoned.foldl Turn.cancelRelation s.turn, tick := none }
  | _ => none

def step (cfg : Config) (s : System) : Action → Option System
  | .input now i =>
    if i.isRetransmitDue then none else some { s with turn := s.turn.serve cfg now i }
  | .start resource payload w =>
    some { s with notifiers := s.notifiers ++
      [⟨resource, payload, s.turn.srv.observers.notify w.observerWalk resource, .next⟩] }
  | .prepare n w => s.stepPrepare n w
  | .send n w => s.stepSend n w
  | .track n now w => s.stepTrack n now w
  | .scan now walk =>
    match s.tick with
    | some _ => none
    | none =>
      let r := s.turn.retransmitScan walk now
      some { s with turn := r.2, tick := some ⟨now, r.1.keys, r.1.abandoned, none⟩ }
  | .take => s.stepTake
  | .resend w => s.stepResend w
  | .finish => s.stepFinish

def initial (manager : SessionManager) (quota : Option PeerQuota) : System :=
  ⟨⟨.new manager quota, []⟩, [], none⟩

/-- No ACK is processed between the send of its notification and the next thing
the sender does with it. -/
def AckOutsideWindows (cfg : Config) (s : System) : Action → Prop
  | .input now i =>
    match s.turn.received cfg now i with
    | none => True
    | some (k, msg) => msg.type = typeACK → k ∉ s.busy.tracking ∧ s.busy.resending ≠ some k
  | _ => True

instance (cfg : Config) (s : System) (a : Action) : Decidable (AckOutsideWindows cfg s a) := by
  unfold AckOutsideWindows
  split
  · split <;> infer_instance
  · infer_instance

end System

def system (cfg : Config) : Machine System Action where
  init s := ∃ manager quota, s = System.initial manager quota
  step := System.step cfg

/-! ### The ledger along a run -/

namespace System

variable {cfg : Config} {s s' : System}

def Inv (s : System) : Prop := s.turn.Keeps s.busy

theorem inv_initial (manager : SessionManager) (quota : Option PeerQuota) :
    (initial manager quota).Inv where
  count _ := rfl
  unacked k l m h := by
    have := h.split
    simp [initial] at this
  quiet k l m h := by
    have := h.split
    simp [initial] at this

variable {n : Nat} {w : World}

/-- What changes in `busy` when one notifier moves. -/
theorem busy_setNotifier {a : Notifier} (h : s.notifiers[n]? = some a) (t : Turn) (x : Notifier) :
    ∃ S T, s.busy.sending.Perm (a.sendingKey.toList ++ S) ∧
      s.busy.tracking.Perm (a.trackingKey.toList ++ T) ∧
      (s.setNotifier t n x).busy.sending.Perm (x.sendingKey.toList ++ S) ∧
      (s.setNotifier t n x).busy.tracking.Perm (x.trackingKey.toList ++ T) := by
  obtain ⟨S, hS, hS'⟩ := exists_perm_filterMap_set Notifier.sendingKey h
  obtain ⟨T, hT, hT'⟩ := exists_perm_filterMap_set Notifier.trackingKey h
  exact ⟨S, T, hS, hT, hS' x, hT' x⟩

variable (cfg) (s) in
/-- **The steps**, each with what it does to the server and to the calls in progress. -/
inductive Step : Action → System → Prop
  | input {now : Int} {i : Input} (h : i.isRetransmitDue = false) :
      Step (.input now i) { s with turn := s.turn.serve cfg now i }
  | start (resource payload : Bytes) (w : World) :
      Step (.start resource payload w) { s with notifiers := s.notifiers ++
        [⟨resource, payload, s.turn.srv.observers.notify w.observerWalk resource, .next⟩] }
  | prepare {n : Nat} {w : World} {resource payload : Bytes} {obs : Observer}
      {todo : List Observer} (h : s.notifiers[n]? = some ⟨resource, payload, obs :: todo, .next⟩) :
      Step (.prepare n w) (s.setNotifier (s.turn.notifyPrepare w resource payload obs).2 n
        ⟨resource, payload, todo,
          (s.turn.notifyPrepare w resource payload obs).1.elim .next .sending⟩)
  | send {n : Nat} {w : World} {resource payload : Bytes} {todo : List Observer}
      {o : Turn.Outgoing} (h : s.notifiers[n]? = some ⟨resource, payload, todo, .sending o⟩) :
      Step (.send n w) (s.setNotifier (s.turn.notifySend w o).2 n
        ⟨resource, payload, todo, if (s.turn.notifySend w o).1 then .tracking o else .next⟩)
  | track {n : Nat} {now : Int} {w : World} {resource payload : Bytes} {todo : List Observer}
      {o : Turn.Outgoing} (h : s.notifiers[n]? = some ⟨resource, payload, todo, .tracking o⟩) :
      Step (.track n now w) (s.setNotifier (s.turn.notifyTrack w now o) n
        ⟨resource, payload, todo, .next⟩)
  | scan {now : Int} {walk : WalkOrder (ExchangeKey × PendingNotify)} (h : s.tick = none) :
      Step (.scan now walk) { s with
        turn := (s.turn.retransmitScan walk now).2
        tick := some ⟨now, (s.turn.retransmitScan walk now).1.keys,
          (s.turn.retransmitScan walk now).1.abandoned, none⟩ }
  | take {now : Int} {key : ExchangeKey} {due : List ExchangeKey}
      {abandoned : List (Bytes × Bytes)} (h : s.tick = some ⟨now, key :: due, abandoned, none⟩) :
      Step .take { s with
        turn := (s.turn.retransmitTake now key).2
        tick := some ⟨now, due, abandoned, (s.turn.retransmitTake now key).1.map (key, ·)⟩ }
  | resend {w : World} {now : Int} {due : List ExchangeKey} {abandoned : List (Bytes × Bytes)}
      {key : ExchangeKey} {data : Bytes}
      (h : s.tick = some ⟨now, due, abandoned, some (key, data)⟩) : Step (.resend w) { s with
        turn := s.turn.retransmitSend w key data
        tick := some ⟨now, due, abandoned, none⟩ }
  | finish {now : Int} {abandoned : List (Bytes × Bytes)}
      (h : s.tick = some ⟨now, [], abandoned, none⟩) : Step .finish { s with
        turn := abandoned.foldl Turn.cancelRelation s.turn
        tick := none }

theorem step_cases {a : Action} (hs : s.step cfg a = some s') : Step cfg s a s' := by
  cases a with
  | input now i =>
    simp only [step] at hs
    split at hs
    · cases hs
    rename_i hi
    cases hs
    exact .input (by simpa using hi)
  | start resource payload w =>
    cases hs
    exact .start resource payload w
  | prepare n w =>
    simp only [step, stepPrepare] at hs
    split at hs
    · rename_i resource payload obs todo hn
      have hstep : Step cfg s (.prepare n w) _ := .prepare hn
      split at hs <;> (rename_i he; rw [he] at hstep; cases hs; exact hstep)
    · cases hs
  | send n w =>
    simp only [step, stepSend] at hs
    split at hs
    · rename_i resource payload todo o hn
      have hstep : Step cfg s (.send n w) _ := .send hn
      split at hs <;> (rename_i he; rw [he] at hstep; cases hs; exact hstep)
    · cases hs
  | track n now w =>
    simp only [step, stepTrack] at hs
    split at hs
    · rename_i hn
      cases hs
      exact .track hn
    · cases hs
  | scan now walk =>
    simp only [step] at hs
    split at hs
    · cases hs
    rename_i htick
    cases hs
    exact .scan htick
  | take =>
    simp only [step, stepTake] at hs
    split at hs
    · rename_i now key due abandoned htick
      have hstep : Step cfg s .take _ := .take htick
      split at hs <;> (rename_i he; rw [he] at hstep; cases hs; exact hstep)
    · cases hs
  | resend w =>
    simp only [step, stepResend] at hs
    split at hs
    · rename_i htick
      cases hs
      exact .resend htick
    · cases hs
  | finish =>
    simp only [step, stepFinish] at hs
    split at hs
    · rename_i htick
      cases hs
      exact .finish htick
    · cases hs

variable {resource payload : Bytes} {todo : List Observer}

theorem inv_prepare {obs : Observer} (h : s.Inv)
    (hn : s.notifiers[n]? = some ⟨resource, payload, obs :: todo, .next⟩) :
    (s.setNotifier (s.turn.notifyPrepare w resource payload obs).2 n ⟨resource, payload, todo,
      (s.turn.notifyPrepare w resource payload obs).1.elim .next .sending⟩).Inv := by
  have hp := Turn.keeps_notifyPrepare w h resource payload obs
  rcases he : s.turn.notifyPrepare w resource payload obs with ⟨_ | o, t⟩
  · rw [he] at hp
    obtain ⟨S, T, h1, h2, h3, h4⟩ := busy_setNotifier hn t ⟨resource, payload, todo, .next⟩
    exact hp.congr (h3.trans h1.symm) (h4.trans h2.symm) rfl
  rw [he] at hp
  obtain ⟨S, T, h1, h2, h3, h4⟩ := busy_setNotifier hn t ⟨resource, payload, todo, .sending o⟩
  exact hp.congr (h3.trans (h1.symm.cons o.key)) (h4.trans h2.symm) rfl

theorem inv_send {o : Turn.Outgoing} (h : s.Inv)
    (hn : s.notifiers[n]? = some ⟨resource, payload, todo, .sending o⟩) :
    (s.setNotifier (s.turn.notifySend w o).2 n ⟨resource, payload, todo,
      if (s.turn.notifySend w o).1 then .tracking o else .next⟩).Inv := by
  have hx := fun t x => busy_setNotifier hn t x
  have ho : o.key ∈ s.busy.sending := by
    obtain ⟨S, T, h1, -⟩ := hx s.turn ⟨resource, payload, todo, .next⟩
    exact h1.mem_iff.mpr List.mem_cons_self
  have hp := Turn.keeps_notifySend w h o ho
  have herase : ∀ {S : List ExchangeKey}, s.busy.sending.Perm (o.key :: S) →
      S.Perm (s.busy.sending.erase o.key) := by
    intro S hS
    have := (hS.erase o.key).symm
    rwa [List.erase_cons_head] at this
  rcases he : s.turn.notifySend w o with ⟨_ | _, t⟩
  · rw [he] at hp
    obtain ⟨S, T, h1, h2, h3, h4⟩ := hx t ⟨resource, payload, todo, .next⟩
    exact hp.congr (h3.trans (herase h1)) (h4.trans h2.symm) rfl
  rw [he] at hp
  obtain ⟨S, T, h1, h2, h3, h4⟩ := hx t ⟨resource, payload, todo, .tracking o⟩
  exact hp.congr (h3.trans (herase h1)) (h4.trans (h2.symm.cons o.key)) rfl

theorem inv_track {now : Int} {o : Turn.Outgoing} (h : s.Inv)
    (hn : s.notifiers[n]? = some ⟨resource, payload, todo, .tracking o⟩) :
    (s.setNotifier (s.turn.notifyTrack w now o) n ⟨resource, payload, todo, .next⟩).Inv := by
  obtain ⟨S, T, h1, h2, h3, h4⟩ :=
    busy_setNotifier hn (s.turn.notifyTrack w now o) ⟨resource, payload, todo, .next⟩
  have hp := Turn.keeps_notifyTrack w now h o (h2.mem_iff.mpr List.mem_cons_self)
  have herase := (h2.erase o.key).symm
  rw [show (Notifier.trackingKey ⟨resource, payload, todo, .tracking o⟩).toList ++ T =
    o.key :: T from rfl, List.erase_cons_head] at herase
  exact hp.congr (h3.trans h1.symm) (h4.trans herase) rfl

theorem inv_step {a : Action} (h : s.Inv) (hok : s.AckOutsideWindows cfg a)
    (hs : s.step cfg a = some s') : s'.Inv := by
  cases step_cases hs with
  | @input now i hi =>
    refine Turn.keeps_serve now cfg h i hi ?_
    intro k msg hr hack
    rw [AckOutsideWindows, hr] at hok
    exact hok hack
  | start resource payload w =>
    refine Ledger.congr h (.of_eq ?_) (.of_eq ?_) rfl
    · simp [busy, List.filterMap_cons, Notifier.sendingKey]
    · simp [busy, List.filterMap_cons, Notifier.trackingKey]
  | prepare hn => exact inv_prepare h hn
  | send hn => exact inv_send h hn
  | track hn => exact inv_track h hn
  | @scan now walk htick =>
    have hscan := retransmitScan_of_untrack (fun _ k hu => hu.untrack k) h walk now
    refine Ledger.congr hscan (.refl _) (.refl _) ?_
    simp [busy, htick]
  | @take now key due abandoned htick =>
    have hb : s.busy.resending = none := by rw [busy, htick]; rfl
    have hp := Turn.keeps_retransmitTake now h key hb
    rcases he : s.turn.retransmitTake now key with ⟨_ | data, t⟩
    · rw [he] at hp
      exact hp
    rw [he] at hp
    exact hp
  | @resend w now due abandoned key data htick =>
    have hb : s.busy.resending = some key := by rw [busy, htick]; rfl
    exact Turn.keeps_retransmitSend w h key hb data
  | @finish now abandoned htick =>
    have hb : s.busy = { s.busy with resending := none } := by rw [busy, htick]; rfl
    have hk : s.turn.Keeps { s.busy with resending := none } := hb ▸ h
    exact (Turn.carries_keeps _).cancelRelations hk _

end System

/-- **An acknowledged notification is settled**, in every run in which no ACK
falls into one of the two windows: once its ACK was processed it is not pending
and was not sent again, as long as its message ID is not issued anew. -/
theorem acknowledged_settled (cfg : Config) {s : System}
    (h : (system cfg).Reaches (System.AckOutsideWindows cfg) s) {k : ExchangeKey}
    {l m : List Event} (hi : LastIssue s.turn.log k l m) (hack : Acknowledged m k) :
    k ∉ s.turn.srv.pendingNotifies ∧ ¬ SentAfterAck m k := by
  have hinv : s.Inv := by
    refine h.inv ?_ ?_
    · rintro _ ⟨manager, quota, rfl⟩
      exact System.inv_initial manager quota
    · intro s a s' hs hok hstep
      exact System.inv_step hs hok hstep
  refine ⟨fun hp => ?_, hinv.quiet k l m hi⟩
  exact hinv.unacked k l m hi (Or.inr (Or.inl hp)) hack

/-! ### Runs with one observer -/

def keyOne : ExchangeKey := ⟨[0x61], 1⟩

/-- The peer registers for the empty resource, and acknowledges the first
notification. -/
def observeSeven : Action := .input 0 (.datagram [0x61] none [0x40, 1, 0, 7, 0x60] steadyWorld)

def ackOne : Action := .input 0 (.datagram [0x61] none [0x60, 0, 0, 1] steadyWorld)

def notifyUntilSent : List Action :=
  [observeSeven, .start [] [9] steadyWorld, .prepare 0 steadyWorld, .send 0 steadyWorld]

def ackedLog : List Event :=
  [.onAccept 1, .plugins 0 ⟨[0x61], 7⟩, .handler 0 ⟨[0x61], 7⟩ [],
    .sent [0x61] [96, 69, 0, 7, 97, 0, 255, 1] true, .issued keyOne,
    .sent [0x61] [64, 69, 0, 1, 97, 1, 255, 9] true, .notified keyOne, .acked keyOne]

theorem acknowledged_settled_keyOne :
    ∃ s, (system responderConfig).Reaches (System.AckOutsideWindows responderConfig) s ∧
      keyOne ∉ s.turn.srv.pendingNotifies := by
  have hrun : ((system responderConfig).runIf (System.AckOutsideWindows responderConfig)
      (System.initial (.new 0) none) (notifyUntilSent ++ [.track 0 0 steadyWorld, ackOne])).map
        (·.turn.log) = some ackedLog := by
    decide +kernel
  obtain ⟨s, hr, hlog⟩ := Machine.exists_reaches hrun ⟨_, _, rfl⟩
  refine ⟨s, hr, (acknowledged_settled responderConfig hr
    (l := s.turn.log.take 4) (m := s.turn.log.drop 5) ?_ ?_).1⟩
  · rw [hlog]
    exact ⟨rfl, by decide, by decide⟩
  · rw [hlog]
    exact ⟨[.sent [0x61] [64, 69, 0, 1, 97, 1, 255, 9] true, .notified keyOne], [], rfl, by simp⟩

/-- The log of both runs below: the notification is sent once more after its
ACK. -/
def resentLog : List Event :=
  ackedLog ++ [.sent [0x61] [64, 69, 0, 1, 97, 1, 255, 9] true, .resent keyOne]

/-- **An acknowledged notification is sent again**, when the ACK is processed
between the send and the tracking, and when it is processed between the take
and the send of a retransmission. -/
theorem acknowledged_sent_again :
    (∃ s l m, (system responderConfig).run (System.initial (.new 0) none) (notifyUntilSent ++
        [ackOne, .track 0 0 steadyWorld, .scan (3 * second) .id, .take, .resend steadyWorld]) =
          some s ∧ LastIssue s.turn.log keyOne l m ∧ SentAfterAck m keyOne) ∧
    (∃ s l m, (system responderConfig).run (System.initial (.new 0) none) (notifyUntilSent ++
        [.track 0 0 steadyWorld, .scan (3 * second) .id, .take, ackOne, .resend steadyWorld]) =
          some s ∧ LastIssue s.turn.log keyOne l m ∧ SentAfterAck m keyOne) := by
  have hbad : ∀ s : System, s.turn.log = resentLog →
      ∃ l m, LastIssue s.turn.log keyOne l m ∧ SentAfterAck m keyOne := by
    intro s hs
    rw [hs]
    refine ⟨resentLog.take 4, resentLog.drop 5, ⟨rfl, by decide, by decide⟩, ?_⟩
    exact ⟨[.sent [0x61] [64, 69, 0, 1, 97, 1, 255, 9] true, .notified keyOne],
      [.sent [0x61] [64, 69, 0, 1, 97, 1, 255, 9] true, .resent keyOne], rfl, by simp, by simp⟩
  have hrun : ∀ acts, ((system responderConfig).run (System.initial (.new 0) none) acts).map
      (·.turn.log) = some resentLog → ∃ s l m,
        (system responderConfig).run (System.initial (.new 0) none) acts = some s ∧
          LastIssue s.turn.log keyOne l m ∧ SentAfterAck m keyOne := by
    intro acts h
    obtain ⟨s, hs, hlog⟩ := Option.map_eq_some_iff.mp h
    obtain ⟨l, m, h1, h2⟩ := hbad s hlog
    exact ⟨s, l, m, hs, h1, h2⟩
  exact ⟨hrun _ (by decide +kernel), hrun _ (by decide +kernel)⟩

end SharkSocket.Coap
