import SharkSocket.Lib.Machine
import SharkSocket.Lib.Pool
import SharkSocket.Runtime.PluginChain

/-!
# Every accept is closed

A plugin may allocate something for a session when it accepts it, and releases it
when it is told of the close.  `PluginChain.OnAccept` closes what it accepted when a
later plugin fails; `PluginChain.OnClose` closes what all of them accepted.

`traffic` is a server at work: sessions are offered to the chain, those it took are
closed once, in any order, and `Append` may publish new views.  Each session keeps the
calls that were made for it.  `Visit.Balanced` says that every plugin was closed as
often as it accepted.  `tcpHandleConn` is the transport's side of it, for TCP.
-/

namespace SharkSocket.Runtime

open Lib

/-! ### One session -/

inductive Phase
  | refused
  | open
  | closed
  deriving DecidableEq, Repr

/-- A session as the chain sees it: the calls made for it so far. -/
structure Visit where
  phase : Phase
  calls : List ChainCall
  deriving DecidableEq, Repr

/-- As many closes of each plugin as accepts that returned nil. -/
def Balanced (calls : List ChainCall) : Prop :=
  ∀ p, (closes calls).count p = (accepts calls).count (p, .ok)

theorem count_pair (view : List Plugin) (p : Plugin) :
    (view.map (·, Outcome.ok)).count (p, .ok) = view.count p :=
  List.count_map_of_injective view _ (fun _ _ h => (Prod.mk.inj h).1) p

namespace PluginChain

variable (c : PluginChain) (accept : Nat → Outcome) (panics : Nat → Bool)

/-- A session that is refused leaves nothing open. -/
theorem balanced_of_refused (h : (c.onAccept accept panics).1 ≠ none) :
    Balanced (c.onAccept accept panics).2 := by
  intro p
  rcases c.onAccept_cases accept panics with
    ⟨i, q, -, -, hfail, -, haccepts, hcloses⟩ | ⟨-, hnone, -⟩
  · have hq : [(q, accept i)].count (p, .ok) = 0 := by
      rw [List.count_eq_zero, List.mem_singleton]
      intro heq
      exact hfail (Prod.mk.inj heq).2.symm
    rw [hcloses, haccepts, List.count_reverse, List.count_append, hq, count_pair, Nat.add_zero]
  · exact absurd hnone h

/-- A session that is taken was accepted by every plugin and closed by none. -/
theorem calls_of_taken (h : (c.onAccept accept panics).1 = none) :
    accepts (c.onAccept accept panics).2 = c.plugins.map (·, .ok) ∧
      closes (c.onAccept accept panics).2 = [] := by
  rcases c.onAccept_cases accept panics with ⟨i, q, -, -, hfail, herr, -⟩ | ⟨-, -, haccepts, hcloses⟩
  · rw [h] at herr
    exact absurd herr.symm (failure_ne_none hfail)
  · exact ⟨haccepts, hcloses⟩

/-- What every plugin of the view accepted is balanced by closing the view. -/
theorem balanced_onClose {calls : List ChainCall} (haccepts : accepts calls = c.plugins.map (·, .ok))
    (hcloses : closes calls = []) : Balanced (calls ++ c.onClose panics) := by
  intro p
  rw [closes_append, accepts_append, hcloses, haccepts, closes_onClose_chain,
    accepts_onClose_chain, List.nil_append, List.append_nil, List.count_reverse, count_pair]

end PluginChain

/-! ### Sessions come and go -/

structure Traffic where
  chain : PluginChain
  visits : List Visit

inductive TrafficAct
  | append (plugins : List (Option Plugin))
  | accept (accept : Nat → Outcome) (panics : Nat → Bool)
  | close (n : Nat) (panics : Nat → Bool)

namespace Traffic

def step (t : Traffic) : TrafficAct → Option Traffic
  | .append plugins => some { t with chain := t.chain.append plugins }
  | .accept accept panics =>
    let r := t.chain.onAccept accept panics
    some { t with visits := t.visits ++ [⟨if r.1.isNone then .open else .refused, r.2⟩] }
  | .close n panics =>
    match t.visits[n]? with
    | some ⟨.open, calls⟩ =>
      some { t with visits := t.visits.set n ⟨.closed, calls ++ t.chain.onClose panics⟩ }
    | _ => none

/-- No new view is published while the session `n` is open. -/
def SteadyFor (n : Nat) (t : Traffic) : TrafficAct → Prop
  | .append _ => t.visits[n]?.map Visit.phase ≠ some .open
  | .accept _ _ | .close _ _ => True

instance (n : Nat) (t : Traffic) : (a : TrafficAct) → Decidable (t.SteadyFor n a)
  | .append _ => inferInstanceAs (Decidable (_ ≠ _))
  | .accept _ _ | .close _ _ => inferInstanceAs (Decidable True)

/-- The session `n` is open with the present view, or nothing of it is left open. -/
def Settled (n : Nat) (t : Traffic) : Prop :=
  ∀ v, t.visits[n]? = some v →
    (v.phase = .open ∧ accepts v.calls = t.chain.plugins.map (·, .ok) ∧ closes v.calls = []) ∨
      (v.phase ≠ .open ∧ Balanced v.calls)

end Traffic

def traffic : Machine Traffic TrafficAct where
  init t := t.visits = []
  step := Traffic.step

namespace Traffic

variable {t u : Traffic} {n : Nat}

theorem Settled.append (h : t.Settled n) {plugins : List (Option Plugin)}
    (hsteady : t.SteadyFor n (.append plugins)) :
    Settled n { t with chain := t.chain.append plugins } := by
  intro v hv
  rcases h v hv with ⟨hopen, -⟩ | hbalanced
  · have hphase : t.visits[n]?.map Visit.phase = some .open := by
      rw [show t.visits[n]? = some v from hv, Option.map_some, hopen]
    exact absurd hphase hsteady
  · exact .inr hbalanced

theorem Settled.accept (h : t.Settled n) (accept : Nat → Outcome) (panics : Nat → Bool) :
    Settled n { t with visits := t.visits ++
      [⟨if (t.chain.onAccept accept panics).1.isNone then .open else .refused,
        (t.chain.onAccept accept panics).2⟩] } := by
  intro v hv
  rcases getElem?_concat_eq_some.mp hv with hold | ⟨-, rfl⟩
  · exact h v hold
  by_cases hnone : (t.chain.onAccept accept panics).1 = none
  · obtain ⟨haccepts, hcloses⟩ := t.chain.calls_of_taken accept panics hnone
    exact .inl ⟨by simp [hnone], haccepts, hcloses⟩
  have hsome : (t.chain.onAccept accept panics).1.isNone = false := by
    rw [Option.isNone_eq_false_iff, Option.isSome_iff_ne_none]
    exact hnone
  exact .inr ⟨by simp [hsome], t.chain.balanced_of_refused accept panics hnone⟩

theorem Settled.close (h : t.Settled n) {m : Nat} {calls : List ChainCall}
    (hm : t.visits[m]? = some ⟨.open, calls⟩) (panics : Nat → Bool) :
    Settled n { t with visits := t.visits.set m ⟨.closed, calls ++ t.chain.onClose panics⟩ } := by
  intro v hv
  rcases getElem?_set_eq_some hv with ⟨rfl, rfl⟩ | ⟨-, hold⟩
  · rcases h _ hm with ⟨-, haccepts, hcloses⟩ | ⟨hopen, -⟩
    · exact .inr ⟨by simp, t.chain.balanced_onClose panics haccepts hcloses⟩
    · exact absurd rfl hopen
  · exact h v hold

theorem Settled.step (h : t.Settled n) {a : TrafficAct} (hsteady : t.SteadyFor n a)
    (hst : t.step a = some u) : u.Settled n := by
  cases a with
  | append plugins =>
    cases hst
    exact h.append hsteady
  | accept accept panics =>
    cases hst
    exact h.accept accept panics
  | close m panics =>
    simp only [Traffic.step] at hst
    split at hst
    · rename_i calls hm
      cases hst
      exact h.close hm panics
    · cases hst

end Traffic

theorem settled_of_reaches {n : Nat} {t : Traffic}
    (h : traffic.Reaches (Traffic.SteadyFor n) t) : t.Settled n := by
  refine Machine.Reaches.inv ?_ ?_ h
  · intro t ht v hv
    rw [show t.visits = [] from ht] at hv
    cases hv
  · intro s a u hs hsteady hst
    exact hs.step hsteady hst

/-! ### A transport -/

/-- What the environment does to one TCP connection. -/
structure ConnWorld where
  register : Option Err
  accept : Nat → Outcome
  rollbackPanics : Nat → Bool
  closePanics : Nat → Bool

inductive ConnCall
  | store
  | register
  | closeSession
  | loops
  | delete
  | unregister
  | chain (call : ChainCall)

/-- The function `handleConn` of `tcp/server.go` defers. -/
def tcpDeferred (chain : PluginChain) (panics : Nat → Bool) (accepted : Bool) : List ConnCall :=
  [.delete, .unregister] ++ if accepted then (chain.onClose panics).map .chain else []

/-- `handleConn` of `tcp/server.go` from the new session on; `now` is the chain when the
session is accepted and `later` when the connection ends. -/
def tcpHandleConn (now later : PluginChain) (w : ConnWorld) : List ConnCall :=
  [.store, .register] ++
    if w.register.isSome then .closeSession :: tcpDeferred later w.closePanics false
    else
      let r := now.onAccept w.accept w.rollbackPanics
      r.2.map .chain ++
        if r.1.isSome then .closeSession :: tcpDeferred later w.closePanics false
        else .loops :: tcpDeferred later w.closePanics true

/-- The calls of the chain among those of a connection. -/
def chainCalls (calls : List ConnCall) : List ChainCall :=
  calls.filterMap fun
    | .chain call => some call
    | _ => none

theorem chainCalls_map (calls : List ChainCall) : chainCalls (calls.map .chain) = calls := by
  induction calls with
  | nil => rfl
  | cons call calls ih => exact congrArg (call :: ·) ih

theorem chainCalls_append (calls more : List ConnCall) :
    chainCalls (calls ++ more) = chainCalls calls ++ chainCalls more := by
  simp [chainCalls]

theorem chainCalls_tcpDeferred (chain : PluginChain) (panics : Nat → Bool) (accepted : Bool) :
    chainCalls (tcpDeferred chain panics accepted) =
      if accepted then chain.onClose panics else [] := by
  cases accepted with
  | false => rfl
  | true => exact chainCalls_map _

/-- What a TCP connection makes the chain do. -/
theorem chainCalls_tcpHandleConn (now later : PluginChain) (w : ConnWorld) :
    chainCalls (tcpHandleConn now later w) = if w.register.isSome then []
      else (now.onAccept w.accept w.rollbackPanics).2 ++
        if (now.onAccept w.accept w.rollbackPanics).1.isSome then []
        else later.onClose w.closePanics := by
  have hrefused : chainCalls (.closeSession :: tcpDeferred later w.closePanics false) = [] :=
    chainCalls_tcpDeferred later w.closePanics false
  have htaken : chainCalls (.loops :: tcpDeferred later w.closePanics true) =
      later.onClose w.closePanics := chainCalls_tcpDeferred later w.closePanics true
  rw [tcpHandleConn, chainCalls_append]
  change [] ++ _ = _
  rw [List.nil_append]
  by_cases hreg : w.register.isSome
  · rw [if_pos hreg, if_pos hreg, hrefused]
  rw [if_neg hreg, if_neg hreg, chainCalls_append, chainCalls_map]
  by_cases hacc : (now.onAccept w.accept w.rollbackPanics).1.isSome
  · rw [if_pos hacc, if_pos hacc, hrefused]
  · rw [if_neg hacc, if_neg hacc, htaken]

theorem balanced_tcpHandleConn (chain : PluginChain) (w : ConnWorld) :
    Balanced (chainCalls (tcpHandleConn chain chain w)) := by
  rw [chainCalls_tcpHandleConn]
  by_cases hreg : w.register.isSome
  · rw [if_pos hreg]
    intro p
    rfl
  rw [if_neg hreg]
  by_cases hacc : (chain.onAccept w.accept w.rollbackPanics).1.isSome
  · rw [if_pos hacc, List.append_nil]
    exact chain.balanced_of_refused _ _ (Option.isSome_iff_ne_none.mp hacc)
  obtain ⟨haccepts, hcloses⟩ := chain.calls_of_taken w.accept w.rollbackPanics
    (Option.not_isSome_iff_eq_none.mp hacc)
  rw [if_neg hacc]
  exact chain.balanced_onClose _ haccepts hcloses

/-- **Accepts and closes balance.**  For every chain and whatever its plugins do: when
`OnAccept` fails at the plugin `i`, the plugins before it have been closed, each once and
the last one first, and no other; when it succeeds none has been closed.  So in every run
every plugin is closed as often as it accepted a session that is no longer open, provided
no new view is published between the two calls of that session; and the calls of a TCP
connection are of this kind. -/
theorem accept_close_balance (n : Nat) (t : Traffic)
    (h : traffic.Reaches (Traffic.SteadyFor n) t) :
    (∀ (c : PluginChain) accept panics err, (c.onAccept accept panics).1 = some err →
      ∃ i p, c.plugins[i]? = some p ∧ (∀ j < i, accept j = .ok) ∧ accept i ≠ .ok ∧
        closes (c.onAccept accept panics).2 = (c.plugins.take i).reverse) ∧
    (∀ (c : PluginChain) accept panics, (c.onAccept accept panics).1 = none →
      closes (c.onAccept accept panics).2 = []) ∧
    (∀ v, t.visits[n]? = some v → v.phase ≠ .open →
      ∀ p, (closes v.calls).count p = (accepts v.calls).count (p, .ok)) ∧
    ∀ chain w p, (closes (chainCalls (tcpHandleConn chain chain w))).count p =
      (accepts (chainCalls (tcpHandleConn chain chain w))).count (p, .ok) := by
  refine ⟨?_, ?_, ?_, fun chain w => balanced_tcpHandleConn chain w⟩
  · intro c accept panics err herr
    rcases c.onAccept_cases accept panics with
      ⟨i, p, hp, hall, hfail, -, -, hcloses⟩ | ⟨-, hnone, -⟩
    · exact ⟨i, p, hp, hall, hfail, hcloses⟩
    · rw [herr] at hnone
      cases hnone
  · intro c accept panics hnone
    exact (c.calls_of_taken accept panics hnone).2
  · intro v hv hphase
    rcases settled_of_reaches h v hv with ⟨hopen, -⟩ | ⟨-, hbalanced⟩
    · exact absurd hopen hphase
    · exact hbalanced

/-- The second plugin refuses the first session, and panics when the other one is closed. -/
def refusedThenClosed : List TrafficAct :=
  [.accept (fun i => if i = 1 then .err .pluginBlock else .ok) fun _ => true,
    .accept (fun _ => .ok) fun _ => false, .close 1 fun i => i = 1,
    .append [none, some ⟨3, "c", 6, true⟩]]

theorem accept_close_balance_refusedThenClosed : ∃ t v,
    traffic.Reaches (Traffic.SteadyFor 1) t ∧ t.visits[1]? = some v ∧ v.phase = .closed ∧
      closes v.calls = [⟨2, "b", 7, false⟩, ⟨1, "a", 5, false⟩] ∧
      ∀ p, (closes v.calls).count p = (accepts v.calls).count (p, .ok) := by
  have hrun : ((traffic.runIf (Traffic.SteadyFor 1)
      ⟨⟨[⟨1, "a", 5, false⟩, ⟨2, "b", 7, false⟩]⟩, []⟩ refusedThenClosed).bind fun t =>
        t.visits[1]?.map fun v => (v.phase, closes v.calls)) =
      some (.closed, [⟨2, "b", 7, false⟩, ⟨1, "a", 5, false⟩]) := by
    decide +kernel
  obtain ⟨t, ht, hv⟩ := Option.bind_eq_some_iff.mp hrun
  obtain ⟨v, hv, hfacts⟩ := Option.map_eq_some_iff.mp hv
  rw [Prod.mk.injEq] at hfacts
  have hreach : traffic.Reaches (Traffic.SteadyFor 1) t :=
    Machine.reaches_of_runIf (M := traffic) (s := ⟨_, []⟩) refusedThenClosed rfl ht
  exact ⟨t, v, hreach, hv, hfacts.1, hfacts.2,
    (accept_close_balance 1 t hreach).2.2.1 v hv (by rw [hfacts.1]; decide)⟩

end SharkSocket.Runtime
