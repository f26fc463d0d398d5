import SharkSocket.Coap.Effects
import SharkSocket.Coap.RegistryCounts
import SharkSocket.Lib.BigEndian

/-!
# Ending an observe relation

A client ends a relation in two ways.

* It answers a notification with an RST.  The RST has no token; the relation is found
  through the token kept with the pending notification.  `rst_cancels`: in every state the
  interleaved server reaches, exactly the relations of that remote and token go, and
  exactly that pending entry.  An entry with an empty token is the exception, since
  `len(token) > 0` is how the code asks whether there was an entry.
* It repeats its GET with an Observe option of value 1.  The option is an unsigned number
  of any length, and the code looks at its first byte: `handleObserve_reads_uint` says for
  which bytes that is the same.
-/

namespace SharkSocket.Coap

open Lib
open Std (ExtTreeMap)

/-! ### RST -/

/-- Relations lie under their own keys, and no remote has the separator in it. -/
def ObserverRegistry.Filed (r : ObserverRegistry) : Prop :=
  r.Each fun key obs => key = observerKey obs.remote obs.token ∧ slash ∉ obs.remote

theorem ObserverRegistry.filed_new : new.Filed := by
  intro resource key obs h
  obtain ⟨subs, hs, -⟩ := getElem?_subsOf.mp h
  simp [new] at hs

/-- The text of a peer's address has no slash in it. -/
def PlainPeer (_ : System) (a : Action) : Prop := a.From fun remote => slash ∉ remote

instance (s : System) (a : Action) : Decidable (PlainPeer s a) :=
  match a with
  | .input _ (.datagram remote _ _ _) => inferInstanceAs (Decidable (slash ∉ remote))
  | .input _ (.dtlsConn remote _ _) => inferInstanceAs (Decidable (slash ∉ remote))
  | .input _ (.dtlsRead _ _ _) | .input _ (.dtlsEnd _) | .input _ (.sweep _)
  | .input _ (.closeSessions _) | .input _ (.sessionClose _) | .input _ (.notifyObservers _ _ _)
  | .input _ (.retransmitDue _ _) | .input _ .clearSeen | .start _ _ _ | .prepare _ _ | .send _ _
  | .track _ _ _ | .scan _ _ | .take | .resend _ | .finish => inferInstanceAs (Decidable True)

theorem Effect.filed {p : Permit} {t u : Turn} (he : Effect p t u)
    (hp : ∀ remote, p.remote remote → slash ∉ remote) (h : t.srv.observers.Filed) :
    u.srv.observers.Filed := by
  cases he with
  | quiet hq =>
    rw [hq.observers]
    exact h
  | delete key => cases key <;> exact h
  | observers hc => exact h.change (fun obs hr => ⟨rfl, hp _ hr.1⟩) hc
  | @notify remote u now draw token data hq =>
    show u.srv.observers.Filed
    rw [hq.observers]
    exact h
  | _ => exact h

theorem System.filed_of_reaches {cfg : Config} {s : System}
    (h : (system cfg).Reaches PlainPeer s) : s.turn.srv.observers.Filed := by
  have hboth : s.Known (fun remote => slash ∉ remote) ∧ s.turn.srv.observers.Filed := by
    refine h.inv (I := fun s : System =>
      s.Known (fun remote => slash ∉ remote) ∧ s.turn.srv.observers.Filed) ?_ ?_
    · rintro _ ⟨manager, quota, rfl⟩
      exact ⟨known_initial manager quota, ObserverRegistry.filed_new⟩
    · rintro s a s' ⟨hk, hf⟩ ha hstep
      refine ⟨hk.step ha hstep, ?_⟩
      refine (effects_step hk ha hstep).inv (I := fun t => t.srv.observers.Filed) ?_ hf
      intro t u ht he
      exact he.filed (fun _ hr => hr) ht
  exact hboth.2

/-- Of a filed registry `RemoveByToken` takes the relations of the remote and token. -/
theorem ObserverRegistry.Filed.removeByToken {r : ObserverRegistry} (h : r.Filed)
    {remote token resource key : Bytes} {obs : Observer} (hremote : slash ∉ remote) :
    ((r.removeByToken remote token).subsOf resource)[key]? = some obs ↔
      (r.subsOf resource)[key]? = some obs ∧ ¬ (obs.remote = remote ∧ obs.token = token) := by
  rw [getElem?_removeByToken]
  refine and_congr_right fun hobs => ?_
  obtain ⟨hkey, hplain⟩ := h resource key obs hobs
  rw [hkey]
  refine not_congr ⟨fun heq => observerKey_inj hplain hremote heq, ?_⟩
  rintro ⟨rfl, rfl⟩
  rfl

namespace Turn

variable {cfg : Config} {w : World} {now : Int} {t : Turn} {sess : Session} {msg : Message}

theorem handleMessage_rst_none (hrst : msg.type = typeRST)
    (hnone : t.srv.pendingNotifies[(⟨sess.remote, msg.messageID⟩ : ExchangeKey)]? = none) :
    t.handleMessage cfg w now sess msg = t := by
  have hnack : msg.type ≠ typeACK := by rw [hrst]; decide
  unfold Turn.handleMessage
  rw [if_neg hnack, if_pos hrst, takePendingNotify, hnone]

theorem handleMessage_rst_some {pn : PendingNotify} (hrst : msg.type = typeRST)
    (hpn : t.srv.pendingNotifies[(⟨sess.remote, msg.messageID⟩ : ExchangeKey)]? = some pn)
    (htoken : pn.token ≠ []) :
    t.handleMessage cfg w now sess msg = { t with srv := { t.srv with
      pendingNotifies := t.srv.pendingNotifies.erase ⟨sess.remote, msg.messageID⟩
      observers := t.srv.observers.removeByToken sess.remote pn.token } } := by
  have hnack : msg.type ≠ typeACK := by rw [hrst]; decide
  obtain ⟨b, token, htoken⟩ := List.exists_cons_of_ne_nil htoken
  unfold Turn.handleMessage
  rw [if_neg hnack, if_pos hrst, takePendingNotify, hpn]
  dsimp only
  rw [htoken]
  rfl

end Turn

/-- **An RST ends the relation it rejects**, in every reachable state: the pending entry
with its message ID goes, and with it the relations of its remote and token on every
resource; nothing else does.  Without a pending entry it changes nothing. -/
theorem rst_cancels (cfg : Config) {s : System} (h : (system cfg).Reaches PlainPeer s)
    (w : World) (now : Int) {sess : Session} (hsess : slash ∉ sess.remote) {data : Bytes}
    {msg : Message} (hparse : parse data = .ok msg) (hrst : msg.type = typeRST)
    (htoken : ∀ pn, s.turn.srv.pendingNotifies[(⟨sess.remote, msg.messageID⟩ : ExchangeKey)]? =
      some pn → pn.token ≠ []) :
    (∀ pn, s.turn.srv.pendingNotifies[(⟨sess.remote, msg.messageID⟩ : ExchangeKey)]? = some pn →
      (s.turn.handleCoAPMessage cfg w now sess data).srv.pendingNotifies =
        s.turn.srv.pendingNotifies.erase ⟨sess.remote, msg.messageID⟩ ∧
      ∀ (resource key : Bytes) (obs : Observer),
        ((s.turn.handleCoAPMessage cfg w now sess data).srv.observers.subsOf resource)[key]? =
            some obs ↔
          (s.turn.srv.observers.subsOf resource)[key]? = some obs ∧
            ¬ (obs.remote = sess.remote ∧ obs.token = pn.token)) ∧
    (s.turn.srv.pendingNotifies[(⟨sess.remote, msg.messageID⟩ : ExchangeKey)]? = none →
      s.turn.handleCoAPMessage cfg w now sess data = s.turn) := by
  unfold Turn.handleCoAPMessage
  rw [hparse]
  dsimp only
  refine ⟨?_, fun hnone => Turn.handleMessage_rst_none hrst hnone⟩
  intro pn hpn
  rw [Turn.handleMessage_rst_some hrst hpn (htoken pn hpn)]
  refine ⟨rfl, ?_⟩
  intro resource key obs
  exact (System.filed_of_reaches h).removeByToken hsess

/-- The peer registers for the empty resource under the token 5. -/
def observeFive : Action := .input 0 (.datagram [0x61] none [0x41, 1, 0, 7, 5, 0x60] steadyWorld)

def notifyTracked (register : Action) : List Action :=
  [register, .start [] [9] steadyWorld, .prepare 0 steadyWorld, .send 0 steadyWorld,
    .track 0 0 steadyWorld]

def peerSession : Session := ⟨1, [0x61], none, false⟩

def rstOne : Bytes := [0x70, 0, 0, 1]

theorem rst_cancels_observeFive :
    ∃ s, (system responderConfig).Reaches PlainPeer s ∧
      (s.turn.srv.observers.subsOf [])[observerKey [0x61] [5]]? =
        some ⟨0, [5], [0x61], []⟩ ∧
      ((s.turn.handleCoAPMessage responderConfig steadyWorld 0 peerSession rstOne).srv.observers.subsOf
        [])[observerKey [0x61] [5]]? = none := by
  have hrun : ((system responderConfig).runIf PlainPeer (System.initial (.new 0) none)
      (notifyTracked observeFive)).map (fun s =>
        (s.turn.srv.pendingNotifies[keyOne]?.map (·.token),
          (s.turn.srv.observers.subsOf [])[observerKey [0x61] [5]]?)) =
      some (some [5], some ⟨0, [5], [0x61], []⟩) := by decide +kernel
  obtain ⟨s, hr, hend⟩ := Machine.exists_reaches hrun ⟨_, _, rfl⟩
  obtain ⟨htoken, hobs⟩ := Prod.mk.inj hend
  obtain ⟨pn, hpn, hfive⟩ := Option.map_eq_some_iff.mp htoken
  have hparse : parse rstOne = .ok ⟨typeRST, codeEmpty, 1, [], ∅, []⟩ := by decide +kernel
  have hplain : slash ∉ peerSession.remote := by decide
  have hne : ∀ pn', s.turn.srv.pendingNotifies[keyOne]? = some pn' → pn'.token ≠ [] := by
    intro pn' hpn'
    cases hpn.symm.trans hpn'
    rw [hfive]
    decide
  obtain ⟨-, hleft⟩ := (rst_cancels responderConfig hr steadyWorld 0 hplain hparse rfl hne).1 pn hpn
  refine ⟨s, hr, hobs, Option.eq_none_iff_forall_ne_some.mpr fun obs hin => ?_⟩
  obtain ⟨hbefore, hnot⟩ := (hleft [] _ obs).mp hin
  rw [hobs] at hbefore
  cases hbefore
  exact hnot ⟨rfl, hfive.symm⟩

/-- With an empty token the pending entry goes and the relation stays. -/
theorem rst_keeps_empty_token :
    ∃ s, (system responderConfig).Reaches PlainPeer s ∧
      keyOne ∈ s.turn.srv.pendingNotifies ∧
      (s.turn.srv.observers.subsOf [])[observerKey [0x61] []]? = some ⟨0, [], [0x61], []⟩ ∧
      keyOne ∉ (s.turn.handleCoAPMessage responderConfig steadyWorld 0 peerSession
        rstOne).srv.pendingNotifies ∧
      ((s.turn.handleCoAPMessage responderConfig steadyWorld 0 peerSession
        rstOne).srv.observers.subsOf [])[observerKey [0x61] []]? = some ⟨0, [], [0x61], []⟩ := by
  have hrun : ((system responderConfig).runIf PlainPeer (System.initial (.new 0) none)
      (notifyTracked observeSeven)).map (fun s =>
        let u := s.turn.handleCoAPMessage responderConfig steadyWorld 0 peerSession rstOne
        (decide (keyOne ∈ s.turn.srv.pendingNotifies),
          (s.turn.srv.observers.subsOf [])[observerKey [0x61] []]?,
          decide (keyOne ∈ u.srv.pendingNotifies),
          (u.srv.observers.subsOf [])[observerKey [0x61] []]?)) =
      some (true, some ⟨0, [], [0x61], []⟩, false, some ⟨0, [], [0x61], []⟩) := by decide +kernel
  obtain ⟨s, hreach, hend⟩ := Machine.exists_reaches hrun ⟨_, _, rfl⟩
  simp only [Prod.mk.injEq, decide_eq_true_eq, decide_eq_false_iff_not] at hend
  obtain ⟨hpending, hobs, hgone, hstays⟩ := hend
  exact ⟨s, hreach, hpending, hobs, hgone, hstays⟩

/-! ### The Observe option -/

/-- What a GET with an Observe option of the given value asks of the registry, and whether
it now has a relation (RFC 7641: 0 registers, 1 deregisters). -/
def ObserverRegistry.observe (walk : WalkOrder (Bytes × Observer)) (r : ObserverRegistry)
    (value : Nat) (resource remote token : Bytes) : Bool × ObserverRegistry :=
  if value = 0 then
    ((r.register walk resource remote token).2.isSome, (r.register walk resource remote token).1)
  else if value = 1 then (false, r.remove resource remote token)
  else (false, r)

/-- The first byte of the option says as much as the whole number. -/
def ReadByFirstByte (v : Bytes) : Prop := v.length ≤ 1 ∨ 2 ≤ v.headD 0 ∨ beNat v = 0

theorem firstByte_iff (v : Bytes) : ((v.headD 0).toNat = 0 ↔ beNat v = 0) ∧
    ((v.headD 0).toNat = 1 ↔ beNat v = 1) ↔ ReadByFirstByte v := by
  unfold ReadByFirstByte
  cases v with
  | nil => simp [beNat]
  | cons b l =>
    have hvalue : beNat (b :: l) = b.toNat * 256 ^ l.length + beNat l := beNat_cons b l
    rw [List.headD_cons, UInt8.le_iff_toNat_le, hvalue]
    show _ ↔ l.length + 1 ≤ 1 ∨ 2 ≤ b.toNat ∨ _
    cases l with
    | nil => simp [beNat]
    | cons c l =>
      -- with a byte behind it the first one counts 256 or more
      have hpos : 1 ≤ 256 ^ l.length := Nat.one_le_pow _ _ (by decide)
      have hpow : 256 ^ (c :: l).length = 256 ^ l.length * 256 := Nat.pow_succ _ _
      rw [hpow, List.length_cons]
      generalize 256 ^ l.length = n at hpos ⊢
      rcases Nat.lt_or_ge b.toNat 2 with hb | hb
      · obtain hb | hb : b.toNat = 0 ∨ b.toNat = 1 := by omega
        · rw [hb]
          omega
        · rw [hb]
          omega
      have hle : 2 * (n * 256) ≤ b.toNat * (n * 256) := Nat.mul_le_mul_right _ hb
      generalize b.toNat * (n * 256) = m at hle ⊢
      omega

theorem ObserverRegistry.observe_congr (walk : WalkOrder (Bytes × Observer)) (r : ObserverRegistry)
    {a b : Nat} (h0 : a = 0 ↔ b = 0) (h1 : a = 1 ↔ b = 1) (resource remote token : Bytes) :
    r.observe walk a resource remote token = r.observe walk b resource remote token := by
  unfold ObserverRegistry.observe
  simp only [h0, h1]

theorem Turn.handleObserve_eq (w : World) (t : Turn) (sess : Session) {msg : Message} {v : Bytes}
    (hget : msg.code = codeGet) (hv : msg.options[observeOption]? = some v) :
    t.handleObserve w sess msg =
      ((t.srv.observers.observe w.observerWalk (v.headD 0).toNat msg.payload sess.remote
          msg.token).1,
        { t with srv := { t.srv with observers :=
          (t.srv.observers.observe w.observerWalk (v.headD 0).toNat msg.payload sess.remote
            msg.token).2 } }) := by
  unfold Turn.handleObserve ObserverRegistry.observe
  rw [if_neg (not_not.mpr hget), hv]
  have hzero : v.headD 0 = 0 ↔ (v.headD 0).toNat = 0 := by rw [← UInt8.toNat_inj]; rfl
  have hone : v.headD 0 = 1 ↔ (v.headD 0).toNat = 1 := by rw [← UInt8.toNat_inj]; rfl
  simp only [hzero, hone]
  split
  · rfl
  · split <;> rfl

/-- A GET of the empty resource with the token 5. -/
def observeGet (v : Bytes) : Message :=
  ⟨typeCON, codeGet, 7, [5], (∅ : Options).insert observeOption v, []⟩

/-- The server with the relation that `observeGet` is about. -/
def observedTurn : Turn :=
  (Turn.handleObserve steadyWorld ⟨freshServer, []⟩ peerSession (observeGet [])).2

/-- Without the relation, only the number 0 makes one. -/
theorem observe_fresh (value : Nat) : (freshServer.observers.observe steadyWorld.observerWalk value
    [] peerSession.remote [5]).1 = true ↔ value = 0 := by
  unfold ObserverRegistry.observe
  split
  · rename_i hzero
    exact iff_of_true (by decide) hzero
  split <;> simpa

/-- With it, only the number 1 removes it. -/
theorem observe_observed (value : Nat) :
    ((observedTurn.srv.observers.observe steadyWorld.observerWalk value [] peerSession.remote
      [5]).2.subsOf [])[observerKey [0x61] [5]]? = none ↔ value = 1 := by
  unfold ObserverRegistry.observe
  split
  · rename_i hzero
    exact iff_of_false (by decide) (by omega)
  split
  · rename_i hone
    exact iff_of_true (by decide) hone
  · rename_i hone
    exact iff_of_false (by decide) hone

/-- **The Observe option is read as a number** exactly if its first byte decides: for the
values with `ReadByFirstByte`, in every state, the registry does what the number asks for
and nothing else of the server changes, and any other value is misread in some state. -/
theorem handleObserve_reads_uint (v : Bytes) :
    (∀ (w : World) (t : Turn) (sess : Session) (msg : Message), msg.code = codeGet →
      msg.options[observeOption]? = some v → t.handleObserve w sess msg =
        ((t.srv.observers.observe w.observerWalk (beNat v) msg.payload sess.remote msg.token).1,
          { t with srv := { t.srv with observers :=
            (t.srv.observers.observe w.observerWalk (beNat v) msg.payload sess.remote
              msg.token).2 } })) ↔
      ReadByFirstByte v := by
  rw [← firstByte_iff]
  constructor
  · intro h
    have hv : (observeGet v).options[observeOption]? = some v := by simp [observeGet]
    have hat := fun t : Turn => (Turn.handleObserve_eq steadyWorld t peerSession rfl hv).symm.trans
      (h steadyWorld t peerSession (observeGet v) rfl hv)
    constructor
    · rw [← observe_fresh, ← observe_fresh]
      exact iff_of_eq (congrArg (·.1 = true) (hat ⟨freshServer, []⟩))
    · rw [← observe_observed, ← observe_observed]
      exact iff_of_eq (congrArg (fun r => (r.2.srv.observers.subsOf [])[observerKey [0x61] [5]]? =
        none) (hat observedTurn))
  · rintro ⟨h0, h1⟩ w t sess msg hget hv
    rw [Turn.handleObserve_eq w t sess hget hv, ObserverRegistry.observe_congr _ _ h0 h1]

/-- `00 01` is the number 1 and registers; `01 00` is 256 and removes. -/
theorem observe_first_byte_decides :
    (beNat [0, 1] = 1 ∧
      ((Turn.handleObserve steadyWorld ⟨freshServer, []⟩ peerSession
        (observeGet [0, 1])).2.srv.observers.subsOf [])[observerKey [0x61] [5]]? =
          some ⟨0, [5], [0x61], []⟩) ∧
    beNat [1, 0] = 256 ∧
      ((Turn.handleObserve steadyWorld observedTurn peerSession
        (observeGet [1, 0])).2.srv.observers.subsOf [])[observerKey [0x61] [5]]? = none := by
  decide

end SharkSocket.Coap
