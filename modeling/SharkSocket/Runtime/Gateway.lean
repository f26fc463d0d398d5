import SharkSocket.Lib.Keys
import SharkSocket.Lib.Machine
import SharkSocket.Lib.Stages
import SharkSocket.Runtime.PluginChain

/-!
# `runtime/gateway.go`: `Gateway`

A gateway starts the lifecycle plugins, then its servers in the order they were
registered, then the admin listener; a failure undoes what was started.  `Stop` runs
through its stages whatever fails in them.  `Register`, `Start` and `Stop` hold one
mutex, so they happen one after the other.

The servers, the plugins, the session manager and the admin listener are not part of
the gateway: a `World` says how each call to them ends.  Within one operation no call
is made twice, which is part of what is proved, so this is no restriction.  An error is
the list of what `errors.Join` joined; nil is the empty list.
-/

namespace SharkSocket.Runtime

open Lib
open Std (ExtTreeMap)

abbrev Protocol := String

/-- A `core.Server`, and whether it is a `core.StagedServer` and `core.RuntimeConfigurable`. -/
structure Server where
  proto : Protocol
  staged : Bool
  configurable : Bool
  deriving DecidableEq, Repr

inductive LifeCall
  | useRuntime (p : Protocol)
  | start (p : Protocol)
  | stop (p : Protocol)
  | stopAccept (p : Protocol)
  | drain (p : Protocol)
  | closeSessions (p : Protocol)
  | closeAll
  | adminStart
  | adminStop
  /-- Plugins are named by their places in the chain. -/
  | startPlugin (i : Nat)
  | stopPlugin (i : Nat)
  deriving DecidableEq, Repr

/-- How the calls of one operation end.  Only plugins panic. -/
structure World where
  fails : LifeCall → Option Err
  panics : LifeCall → Bool

namespace World

/-- `safeStart` and `safeStop`: a panic becomes an error. -/
def plugin (w : World) (c : LifeCall) : Option Err :=
  if w.panics c then some .pluginPanic else w.fails c

/-- The error of a call as the gateway sees it. -/
def error (w : World) : LifeCall → Option Err
  | .startPlugin i => w.plugin (.startPlugin i)
  | .stopPlugin i => w.plugin (.stopPlugin i)
  | c => w.fails c

end World

/-- A call for each of the plugins, or for each of the servers. -/
def startPlugins (ps : List (Plugin × Nat)) : List LifeCall := ps.map fun p => .startPlugin p.2

def stopPlugins (ps : List (Plugin × Nat)) : List LifeCall := ps.map fun p => .stopPlugin p.2

def startServers (l : List Server) : List LifeCall := l.map fun s => .start s.proto

def stopServers (l : List Server) : List LifeCall := l.map fun s => .stop s.proto

/-! ### The plugins -/

namespace PluginChain

/-- The plugins that `StartAll` and `StopAll` do not skip, with their places. -/
def lifecyclePlugins (c : PluginChain) : List (Plugin × Nat) := c.plugins.zipIdx.filter (·.1.lifecycle)

/-- `safeStop` on each of the plugins. -/
def stopEach (w : World) (ps : List (Plugin × Nat)) : List Err × List LifeCall :=
  (ps.filterMap fun p => w.plugin (.stopPlugin p.2), stopPlugins ps)

def startAll (c : PluginChain) (w : World) : List Err × List LifeCall :=
  match runUntil (fun p => w.plugin (.startPlugin p.2)) c.lifecyclePlugins with
  | (started, none) => ([], startPlugins started)
  | (started, some (p, err)) =>
    let back := stopEach w started.reverse
    (.wrap ("plugin " ++ p.1.name.quote ++ " start") err :: back.1,
      startPlugins (started ++ [p]) ++ back.2)

def stopAll (c : PluginChain) (w : World) : List Err × List LifeCall :=
  stopEach w c.lifecyclePlugins.reverse

end PluginChain

/-! ### The gateway -/

structure Gateway where
  servers : ExtTreeMap Protocol Server
  order : List Protocol
  plugins : PluginChain
  adminAddr : String
  /-- Whether the field `admin` is set. -/
  admin : Bool
  started : Bool

namespace Gateway

variable (g : Gateway)

def new (plugins : PluginChain) (adminAddr : String) : Gateway :=
  ⟨∅, [], plugins, adminAddr, false, false⟩

def errNoServers : Err := .other "no servers registered"

def errDuplicateProtocol : Err := .other "duplicate protocol"

def register : Option Server → Option Err × Gateway
  | none => (some errNoServers, g)
  | some srv =>
    if g.started then
      (some (.other ("gateway: cannot register " ++ srv.proto.quote ++ " after Start")), g)
    else if srv.proto ∈ g.servers then (some errDuplicateProtocol, g)
    else
      (none, { g with
        servers := g.servers.insert srv.proto srv
        order := g.order ++ [srv.proto] })

def snapshot : List Server := g.order.filterMap fun p => g.servers[p]?

def ready : Bool := g.started

/-- The servers that were started are stopped in reverse order, then the plugins; the
errors are only logged. -/
def rollbackStart (w : World) (started : List Server) : List LifeCall :=
  stopServers started.reverse ++ (g.plugins.stopAll w).2

/-- The calls of `UseRuntime`. -/
def wiring : List LifeCall :=
  (g.snapshot.filter (·.configurable)).map fun s => .useRuntime s.proto

/-- The part of `Start` that follows the start of the plugins, which made `calls`. -/
def startRest (w : World) (calls : List LifeCall) : List Err × List LifeCall × Gateway :=
  match runUntil (fun s => w.fails (.start s.proto)) g.snapshot with
  | (started, some (srv, err)) =>
    ([err], calls ++ startServers (started ++ [srv]) ++ g.rollbackStart w started, g)
  | (started, none) =>
    let calls := calls ++ startServers started
    if g.adminAddr ≠ "" then
      match w.fails .adminStart with
      | some err => ([err], calls ++ [.adminStart] ++ g.rollbackStart w started, g)
      | none => ([], calls ++ [.adminStart], { g with admin := true, started := true })
    else ([], calls, { g with started := true })

def start (w : World) : List Err × List LifeCall × Gateway :=
  if g.started then ([.other "gateway: already started"], [], g)
  else if g.snapshot = [] then ([errNoServers], [], g)
  else
    match g.plugins.startAll w with
    | ([], calls) => g.startRest w (g.wiring ++ calls)
    | (err :: errs, calls) => (err :: errs, g.wiring ++ calls, g)

/-- The first loop of `Stop` over the servers. -/
def stopAccepts : List LifeCall :=
  (g.snapshot.filter (·.staged)).map fun s => .stopAccept s.proto

/-- The second one. -/
def drains : List LifeCall :=
  (g.snapshot.filter (·.staged)).map fun s => .drain s.proto

/-- The third one, which also stops the servers without stages. -/
def closings : List LifeCall :=
  g.snapshot.map fun s => if s.staged then .closeSessions s.proto else .stop s.proto

def stopStages : List LifeCall :=
  g.stopAccepts ++ g.drains ++ g.closings ++ [.closeAll]

/-- The first error is the one returned. -/
def stop (w : World) : List Err × List LifeCall × Gateway :=
  let firstErr := (g.stopStages.findSome? w.fails).toList
  let plugins := g.plugins.stopAll w
  let firstErr := if firstErr = [] then plugins.1 else firstErr
  let admin := if g.admin then [.adminStop] else []
  let firstErr := if firstErr = [] then (admin.findSome? w.fails).toList else firstErr
  (firstErr, g.stopStages ++ plugins.2 ++ admin, { g with started := false })

end Gateway

inductive GatewayAct
  | register (server : Option Server)
  | start (w : World)
  | stop (w : World)

def Gateway.step (g : Gateway) : GatewayAct → Gateway
  | .register server => (g.register server).2
  | .start w => (g.start w).2.2
  | .stop w => (g.stop w).2.2

def gateway (plugins : PluginChain) (adminAddr : String) : Machine Gateway GatewayAct where
  init g := g = .new plugins adminAddr
  step g a := some (g.step a)

/-! ### The servers of a gateway -/

namespace Gateway

variable {g : Gateway}

/-- The list of protocols and the map of servers agree. -/
structure Known (g : Gateway) : Prop where
  nodup : g.order.Nodup
  mem : ∀ p, p ∈ g.order ↔ p ∈ g.servers
  proto : ∀ (p : Protocol) (s : Server), g.servers[p]? = some s → s.proto = p

theorem Known.of_eq (h : g.Known) {k : Gateway} (hservers : k.servers = g.servers)
    (horder : k.order = g.order) : k.Known := by
  refine ⟨by rw [horder]; exact h.nodup, fun p => ?_, fun p s hs => ?_⟩
  · rw [horder, hservers]
    exact h.mem p
  · rw [hservers] at hs
    exact h.proto p s hs

theorem Known.register (h : g.Known) (server : Option Server) : (g.register server).2.Known := by
  cases server with
  | none => exact h
  | some srv =>
    rw [Gateway.register]
    split
    · exact h
    split
    · exact h
    rename_i hnew
    refine ⟨?_, fun p => ?_, fun p s hs => ?_⟩
    · refine h.nodup.append (List.nodup_singleton _) ?_
      rw [List.disjoint_singleton, h.mem]
      exact hnew
    · rw [List.mem_append, List.mem_singleton, h.mem, mem_insert_iff, or_comm]
    · rcases getElem?_insert_eq_some.mp hs with ⟨heq, rfl⟩ | ⟨-, hs⟩
      · exact heq.symm
      · exact h.proto p s hs

/-- `Start` and `Stop` leave the servers alone. -/
theorem start_servers (g : Gateway) (w : World) :
    (g.start w).2.2.servers = g.servers ∧ (g.start w).2.2.order = g.order := by
  unfold start
  split
  · exact ⟨rfl, rfl⟩
  split
  · exact ⟨rfl, rfl⟩
  split
  · unfold startRest
    split
    · exact ⟨rfl, rfl⟩
    split
    · split <;> exact ⟨rfl, rfl⟩
    · exact ⟨rfl, rfl⟩
  · exact ⟨rfl, rfl⟩

theorem Known.step (h : g.Known) (a : GatewayAct) : (g.step a).Known := by
  cases a with
  | register server => exact h.register server
  | start w => exact h.of_eq (g.start_servers w).1 (g.start_servers w).2
  | stop w => exact h.of_eq rfl rfl

/-- Every registered server is in the snapshot, in the order of registration. -/
theorem Known.snapshot_proto (h : g.Known) : g.snapshot.map Server.proto = g.order := by
  have hmap : ∀ l : List Protocol, (∀ p ∈ l, p ∈ g.servers) →
      (l.filterMap fun p => g.servers[p]?).map Server.proto = l := by
    intro l
    induction l with
    | nil => intro _; rfl
    | cons p l ih =>
      intro hl
      obtain ⟨s, hs⟩ := mem_iff_getElem?.mp (hl p List.mem_cons_self)
      rw [List.filterMap_cons_some hs, List.map_cons, h.proto p s hs,
        ih fun q hq => hl q (List.mem_cons_of_mem _ hq)]
  exact hmap g.order fun p hp => (h.mem p).mp hp

theorem Known.nodup_snapshot (h : g.Known) : (g.snapshot.map Server.proto).Nodup := by
  rw [h.snapshot_proto]
  exact h.nodup

theorem Known.mem_snapshot (h : g.Known) (s : Server) :
    s ∈ g.snapshot ↔ g.servers[s.proto]? = some s := by
  constructor
  · intro hs
    obtain ⟨p, -, hp⟩ := List.mem_filterMap.mp hs
    rw [h.proto p s hp]
    exact hp
  · intro hs
    refine List.mem_filterMap.mpr ⟨s.proto, (h.mem _).mpr ?_, hs⟩
    exact mem_iff_getElem?.mpr ⟨s, hs⟩

end Gateway

theorem known_of_reachable {plugins : PluginChain} {adminAddr : String} {g : Gateway}
    (h : (gateway plugins adminAddr).Reachable g) : g.Known := by
  refine Machine.Reaches.inv ?_ ?_ h
  · rintro g rfl
    exact ⟨List.nodup_nil, fun p => by simp [Gateway.new], fun p s hs => by
      simp [Gateway.new] at hs⟩
  · intro g a k hg _ hst
    cases hst
    exact hg.step a

/-! ### What `Start` did -/

namespace LifeCall

/-- The protocol of a server's call. -/
def server : LifeCall → Protocol
  | .useRuntime p | .start p | .stop p | .stopAccept p | .drain p | .closeSessions p => p
  | .closeAll | .adminStart | .adminStop | .startPlugin _ | .stopPlugin _ => ""

/-- The place of a plugin's call. -/
def place : LifeCall → Nat
  | .startPlugin i | .stopPlugin i => i
  | _ => 0

/-- The order in which a start, and its rollback, makes its calls. -/
def startRank : LifeCall → Nat
  | .useRuntime _ => 0
  | .startPlugin _ => 1
  | .start _ => 2
  | .adminStart => 3
  | .stop _ => 4
  | .stopPlugin _ => 5
  | .stopAccept _ | .drain _ | .closeSessions _ | .closeAll | .adminStop => 6

/-- The stage of a stop in which a call is made. -/
def stage : LifeCall → Nat
  | .stopAccept _ => 0
  | .drain _ => 1
  | .closeSessions _ | .stop _ => 2
  | .closeAll => 3
  | .stopPlugin _ => 4
  | .adminStop => 5
  | .useRuntime _ | .startPlugin _ | .start _ | .adminStart => 6

end LifeCall

namespace PluginChain

theorem nodup_places (c : PluginChain) : (c.lifecyclePlugins.map Prod.snd).Nodup := by
  have hall : (c.plugins.zipIdx.map Prod.snd).Nodup := by
    rw [List.zipIdx_map_snd]
    exact List.nodup_range'
  exact hall.sublist (List.filter_sublist.map _)

theorem stopEach_nil_iff (w : World) (ps : List (Plugin × Nat)) :
    (stopEach w ps).1 = [] ↔ ∀ c ∈ (stopEach w ps).2, w.error c = none := by
  rw [stopEach, List.filterMap_eq_nil_iff]
  dsimp only [stopPlugins]
  rw [List.forall_mem_map]
  rfl

end PluginChain

namespace Gateway

variable {g : Gateway} {w : World}

/-- Every call with which a start brings something up succeeds. -/
structure AllStart (g : Gateway) (w : World) : Prop where
  plugins : ∀ p ∈ g.plugins.lifecyclePlugins, w.error (.startPlugin p.2) = none
  servers : ∀ s ∈ g.snapshot, w.error (.start s.proto) = none
  admin : g.adminAddr ≠ "" → w.error .adminStart = none

/-- How a start fails that is not refused: at the first call that does. -/
inductive Failure (g : Gateway) (w : World) : List LifeCall → Prop
  /-- A plugin fails: those before it are stopped, and no server was started. -/
  | plugin (pre post : List (Plugin × Nat)) (p : Plugin × Nat)
      (hplugins : g.plugins.lifecyclePlugins = pre ++ p :: post)
      (hpre : ∀ q ∈ pre, w.error (.startPlugin q.2) = none)
      (hfail : w.error (.startPlugin p.2) ≠ none) :
      Failure g w (g.wiring ++ startPlugins (pre ++ [p]) ++ stopPlugins pre.reverse)
  /-- A server fails: those before it are stopped, then every lifecycle plugin. -/
  | server (pre post : List Server) (srv : Server)
      (hplugins : ∀ p ∈ g.plugins.lifecyclePlugins, w.error (.startPlugin p.2) = none)
      (hservers : g.snapshot = pre ++ srv :: post)
      (hpre : ∀ s ∈ pre, w.error (.start s.proto) = none)
      (hfail : w.error (.start srv.proto) ≠ none) :
      Failure g w (g.wiring ++ startPlugins g.plugins.lifecyclePlugins ++
        startServers (pre ++ [srv]) ++ stopServers pre.reverse ++
        stopPlugins g.plugins.lifecyclePlugins.reverse)
  /-- The admin listener fails: every server is stopped, then every lifecycle plugin. -/
  | admin (hplugins : ∀ p ∈ g.plugins.lifecyclePlugins, w.error (.startPlugin p.2) = none)
      (hservers : ∀ s ∈ g.snapshot, w.error (.start s.proto) = none) (haddr : g.adminAddr ≠ "")
      (hfail : w.error .adminStart ≠ none) :
      Failure g w (g.wiring ++ startPlugins g.plugins.lifecyclePlugins ++
        startServers g.snapshot ++ [.adminStart] ++ stopServers g.snapshot.reverse ++
        stopPlugins g.plugins.lifecyclePlugins.reverse)

theorem Failure.not_allStart {calls : List LifeCall} (h : Failure g w calls) : ¬ g.AllStart w := by
  intro hall
  cases h with
  | plugin pre post p hplugins _ hfail => exact hfail (hall.plugins p (by simp [hplugins]))
  | server pre post srv _ hservers _ hfail => exact hfail (hall.servers srv (by simp [hservers]))
  | admin _ _ haddr hfail => exact hfail (hall.admin haddr)

/-- What a start that succeeds did. -/
def bringUp (g : Gateway) : List LifeCall :=
  g.wiring ++ startPlugins g.plugins.lifecyclePlugins ++ startServers g.snapshot ++
    if g.adminAddr ≠ "" then [.adminStart] else []

theorem Known.snapshot_eq_nil (h : g.Known) : g.snapshot = [] ↔ g.order = [] := by
  rw [← h.snapshot_proto, List.map_eq_nil_iff]

theorem rollbackStart_eq (g : Gateway) (w : World) (started : List Server) :
    g.rollbackStart w started =
      stopServers started.reverse ++ stopPlugins g.plugins.lifecyclePlugins.reverse := rfl

/-- The second half of a start fails and is undone, or succeeds. -/
theorem startRest_cases {calls : List LifeCall}
    (hcalls : calls = g.wiring ++ startPlugins g.plugins.lifecyclePlugins)
    (hplugins : ∀ p ∈ g.plugins.lifecyclePlugins, w.error (.startPlugin p.2) = none) :
    ((g.startRest w calls).1 ≠ [] ∧ Failure g w (g.startRest w calls).2.1 ∧
      (g.startRest w calls).2.2 = g) ∨
    ((g.startRest w calls).1 = [] ∧ g.AllStart w ∧ (g.startRest w calls).2.1 = g.bringUp ∧
      (g.startRest w calls).2.2.started = true) := by
  unfold startRest
  rcases runUntil_cases (fun s : Server => w.fails (.start s.proto)) g.snapshot with
    ⟨pre, srv, e, post, hservers, hpre, hsrv, hrun⟩ | ⟨hservers, hrun⟩
  · have hfail : w.error (.start srv.proto) ≠ none := Option.ne_none_iff_exists'.mpr ⟨e, hsrv⟩
    rw [hrun]
    refine .inl ⟨by simp, ?_, rfl⟩
    dsimp only
    rw [rollbackStart_eq, ← List.append_assoc, hcalls]
    exact .server pre post srv hplugins hservers hpre hfail
  · rw [hrun]
    dsimp only
    by_cases haddr : g.adminAddr ≠ ""
    · rw [if_pos haddr]
      cases he : w.fails .adminStart with
      | some e =>
        have hfail : w.error .adminStart ≠ none := Option.ne_none_iff_exists'.mpr ⟨e, he⟩
        refine .inl ⟨by simp, ?_, rfl⟩
        rw [rollbackStart_eq, ← List.append_assoc, hcalls]
        exact .admin hplugins hservers haddr hfail
      | none =>
        refine .inr ⟨rfl, ⟨hplugins, hservers, fun _ => he⟩, ?_, rfl⟩
        rw [hcalls, bringUp, if_pos haddr]
    · rw [if_neg haddr]
      refine .inr ⟨rfl, ⟨hplugins, hservers, fun h => absurd h haddr⟩, ?_, rfl⟩
      rw [hcalls, bringUp, if_neg haddr, List.append_nil]

/-- **What a start did**, if it was not refused. -/
theorem Known.start_cases (h : g.Known) (w : World) (hready : g.ready = false)
    (hservers : g.order ≠ []) :
    ((g.start w).1 ≠ [] ∧ Failure g w (g.start w).2.1 ∧ (g.start w).2.2 = g) ∨
    ((g.start w).1 = [] ∧ g.AllStart w ∧ (g.start w).2.1 = g.bringUp ∧
      (g.start w).2.2.started = true) := by
  unfold start
  rw [if_neg (by rw [← ready, hready]; simp), if_neg (mt h.snapshot_eq_nil.mp hservers),
    PluginChain.startAll]
  rcases runUntil_cases (fun p : Plugin × Nat => w.plugin (.startPlugin p.2))
      g.plugins.lifecyclePlugins with
    ⟨pre, p, e, post, hplugins, hpre, hp, hrun⟩ | ⟨hplugins, hrun⟩
  · have hfail : w.error (.startPlugin p.2) ≠ none := Option.ne_none_iff_exists'.mpr ⟨e, hp⟩
    rw [hrun]
    refine .inl ⟨by simp, ?_, rfl⟩
    dsimp only
    rw [← List.append_assoc]
    exact .plugin pre post p hplugins hpre hfail
  · rw [hrun]
    exact startRest_cases rfl hplugins

theorem Known.start_refused (h : g.Known) (w : World) (hno : g.ready = true ∨ g.order = []) :
    (g.start w).1 ≠ [] ∧ (g.start w).2 = ([], g) := by
  unfold start
  split
  · exact ⟨List.cons_ne_nil _ _, rfl⟩
  rename_i hstarted
  rw [if_pos (h.snapshot_eq_nil.mpr (hno.resolve_left hstarted))]
  exact ⟨List.cons_ne_nil _ _, rfl⟩

end Gateway

/-! ### No call is made twice -/

section

variable {α β : Type*} {f : α → β} {l pre post : List α} {a : α}

theorem nodup_map_reverse (h : (l.map f).Nodup) : (l.reverse.map f).Nodup := by
  rw [List.map_reverse]
  exact List.nodup_reverse.mpr h

theorem nodup_map_front (heq : l = pre ++ a :: post) (h : (l.map f).Nodup) :
    ((pre ++ [a]).map f).Nodup ∧ (pre.map f).Nodup := by
  have hfront : (pre ++ [a]).Sublist l := by
    rw [heq]
    exact (List.Sublist.refl pre).append (by simp)
  refine ⟨h.sublist (hfront.map f), h.sublist (List.Sublist.map f ?_)⟩
  exact (List.sublist_append_left pre [a]).trans hfront

end

section

variable {calls : List LifeCall} {ps : List (Plugin × Nat)} {l : List Server}

theorem ranked_startPlugins (h : Ranked LifeCall.startRank 1 calls) (hps : (ps.map Prod.snd).Nodup) :
    Ranked LifeCall.startRank 2 (calls ++ startPlugins ps) :=
  h.append_map LifeCall.place hps fun _ => rfl

theorem ranked_startServers (h : Ranked LifeCall.startRank 2 calls)
    (hl : (l.map Server.proto).Nodup) :
    Ranked LifeCall.startRank 3 (calls ++ startServers l) :=
  h.append_map LifeCall.server hl fun _ => rfl

theorem ranked_stopServers (h : Ranked LifeCall.startRank 4 calls)
    (hl : (l.map Server.proto).Nodup) :
    Ranked LifeCall.startRank 5 (calls ++ stopServers l) :=
  h.append_map LifeCall.server hl fun _ => rfl

theorem ranked_stopPlugins (h : Ranked LifeCall.startRank 5 calls) (hps : (ps.map Prod.snd).Nodup) :
    Ranked LifeCall.startRank 6 (calls ++ stopPlugins ps) :=
  h.append_map LifeCall.place hps fun _ => rfl

end

namespace Gateway

variable {g : Gateway} {w : World}

theorem Known.ranked_wiring (h : g.Known) : Ranked LifeCall.startRank 1 g.wiring := by
  have hnodup : ((g.snapshot.filter (·.configurable)).map Server.proto).Nodup :=
    h.nodup_snapshot.sublist (List.filter_sublist.map _)
  exact (Ranked.nil _ 0).append_map LifeCall.server hnodup fun _ => rfl

theorem Failure.nodup {calls : List LifeCall} (hcalls : Failure g w calls) (h : g.Known) :
    calls.Nodup := by
  have hplugins := g.plugins.nodup_places
  have hservers := h.nodup_snapshot
  have hwiring := h.ranked_wiring
  cases hcalls with
  | plugin pre post p heq _ _ =>
    obtain ⟨hfront, hpre⟩ := nodup_map_front heq hplugins
    have hup := ranked_startPlugins hwiring hfront
    exact (ranked_stopPlugins hup.skip.skip.skip (nodup_map_reverse hpre)).nodup
  | server pre post srv _ heq _ _ =>
    obtain ⟨hfront, hpre⟩ := nodup_map_front heq hservers
    have hup := ranked_startServers (ranked_startPlugins hwiring hplugins) hfront
    have hdown := ranked_stopServers hup.skip (nodup_map_reverse hpre)
    exact (ranked_stopPlugins hdown (nodup_map_reverse hplugins)).nodup
  | admin _ _ _ _ =>
    have hup := ranked_startServers (ranked_startPlugins hwiring hplugins) hservers
    have hadmin := hup.append (List.nodup_singleton .adminStart) (by simp [LifeCall.startRank])
    have hdown := ranked_stopServers hadmin (nodup_map_reverse hservers)
    exact (ranked_stopPlugins hdown (nodup_map_reverse hplugins)).nodup

/-! ### What `Stop` did -/

theorem Known.ranked_stopStages (h : g.Known) : Ranked LifeCall.stage 4 g.stopStages := by
  have hstaged : ((g.snapshot.filter (·.staged)).map Server.proto).Nodup :=
    h.nodup_snapshot.sublist (List.filter_sublist.map _)
  have haccept : Ranked LifeCall.stage 1 ([] ++ g.stopAccepts) :=
    (Ranked.nil _ 0).append_map LifeCall.server hstaged fun _ => rfl
  have hdrain : Ranked LifeCall.stage 2 ([] ++ g.stopAccepts ++ g.drains) :=
    haccept.append_map LifeCall.server hstaged fun _ => rfl
  have hclose : Ranked LifeCall.stage 3 ([] ++ g.stopAccepts ++ g.drains ++ g.closings) := by
    refine hdrain.append_map LifeCall.server ?_ fun s => ?_
    · have hkey : ∀ s : Server, (if s.staged then LifeCall.closeSessions s.proto
          else .stop s.proto).server = s.proto := by
        intro s
        split <;> rfl
      simp only [hkey]
      exact h.nodup_snapshot
    · split <;> rfl
  exact hclose.append (List.nodup_singleton LifeCall.closeAll) (by simp [LifeCall.stage])

/-- The calls of a stop do not depend on what fails. -/
theorem stop_calls (g : Gateway) (w : World) :
    (g.stop w).2.1 = g.stopStages ++ stopPlugins g.plugins.lifecyclePlugins.reverse ++
      if g.admin then [.adminStop] else [] := rfl

theorem Known.ranked_stop (h : g.Known) (w : World) : Ranked LifeCall.stage 6 (g.stop w).2.1 := by
  have hplugins : Ranked LifeCall.stage 5
      (g.stopStages ++ stopPlugins g.plugins.lifecyclePlugins.reverse) :=
    h.ranked_stopStages.append_map LifeCall.place
      (nodup_map_reverse g.plugins.nodup_places) fun _ => rfl
  rw [stop_calls]
  split
  · exact hplugins.append (List.nodup_singleton LifeCall.adminStop) (by simp [LifeCall.stage])
  rw [List.append_nil]
  exact hplugins.skip

/-- Outside the plugins an error is what the call returned. -/
theorem error_of_stopStages {c : LifeCall} (h : c ∈ g.stopStages) (w : World) :
    w.error c = w.fails c := by
  simp only [stopStages, stopAccepts, drains, closings, List.mem_append, List.mem_map,
    List.mem_singleton] at h
  rcases h with ((⟨s, -, rfl⟩ | ⟨s, -, rfl⟩) | ⟨s, -, rfl⟩) | rfl
  · rfl
  · rfl
  · split <;> rfl
  · rfl

/-- **A stop fails when one of its calls did.** -/
theorem stop_error_iff (g : Gateway) (w : World) :
    (g.stop w).1 = [] ↔ ∀ c ∈ (g.stop w).2.1, w.error c = none := by
  have hfirst : (g.stopStages.findSome? w.fails).toList = [] ↔
      ∀ c ∈ g.stopStages, w.error c = none := by
    rw [Option.toList_eq_nil_iff, List.findSome?_eq_none_iff]
    refine forall₂_congr fun c hc => ?_
    rw [error_of_stopStages hc]
  have hplugins := PluginChain.stopEach_nil_iff w g.plugins.lifecyclePlugins.reverse
  have hadmin : ((if g.admin then [LifeCall.adminStop] else []).findSome? w.fails).toList = [] ↔
      ∀ c ∈ (if g.admin then [LifeCall.adminStop] else []), w.error c = none := by
    cases g.admin <;> simp [World.error]
  rw [stop_calls]
  simp only [List.forall_mem_append, ← hfirst, ← hadmin]
  change _ ↔ (_ ∧ (∀ c ∈ (PluginChain.stopEach w g.plugins.lifecyclePlugins.reverse).2, _)) ∧ _
  rw [← hplugins]
  unfold stop
  dsimp only [PluginChain.stopAll]
  by_cases h1 : (g.stopStages.findSome? w.fails).toList = []
  · rw [if_pos h1]
    by_cases h2 : (PluginChain.stopEach w g.plugins.lifecyclePlugins.reverse).1 = []
    · simp [h1, h2]
    · simp [h2]
  · simp [h1]

theorem mem_map_filter {α β : Type*} {f : α → β} {p : α → Bool} {l : List α} {b : β} :
    b ∈ (l.filter p).map f ↔ ∃ a ∈ l, p a = true ∧ b = f a := by
  simp only [List.mem_map, List.mem_filter, and_assoc, eq_comm]

/-- The calls that a stop has to make. -/
def StopCall (g : Gateway) (c : LifeCall) : Prop :=
  (∃ s ∈ g.snapshot, s.staged = true ∧
    (c = .stopAccept s.proto ∨ c = .drain s.proto ∨ c = .closeSessions s.proto)) ∨
  (∃ s ∈ g.snapshot, s.staged = false ∧ c = .stop s.proto) ∨ c = .closeAll ∨
  (∃ p ∈ g.plugins.lifecyclePlugins, c = .stopPlugin p.2) ∨ (g.admin = true ∧ c = .adminStop)

theorem mem_stop (g : Gateway) (w : World) (c : LifeCall) : c ∈ (g.stop w).2.1 ↔ g.StopCall c := by
  have hclose : c ∈ g.closings ↔ (∃ s ∈ g.snapshot, s.staged = true ∧ c = .closeSessions s.proto) ∨
      ∃ s ∈ g.snapshot, s.staged = false ∧ c = .stop s.proto := by
    rw [closings, List.mem_map]
    constructor
    · rintro ⟨s, hs, rfl⟩
      cases hstaged : s.staged with
      | true => exact .inl ⟨s, hs, hstaged, rfl⟩
      | false => exact .inr ⟨s, hs, hstaged, rfl⟩
    · rintro (⟨s, hs, hstaged, rfl⟩ | ⟨s, hs, hstaged, rfl⟩)
      · exact ⟨s, hs, by rw [hstaged]; rfl⟩
      · exact ⟨s, hs, by rw [hstaged]; rfl⟩
  have hadmin : c ∈ (if g.admin then [LifeCall.adminStop] else []) ↔
      g.admin = true ∧ c = .adminStop := by
    cases g.admin with
    | false | true => simp
  have haccept : c ∈ g.stopAccepts ↔ ∃ s ∈ g.snapshot, s.staged = true ∧ c = .stopAccept s.proto :=
    mem_map_filter
  have hdrain : c ∈ g.drains ↔ ∃ s ∈ g.snapshot, s.staged = true ∧ c = .drain s.proto :=
    mem_map_filter
  have hplugins : c ∈ stopPlugins g.plugins.lifecyclePlugins.reverse ↔
      ∃ p ∈ g.plugins.lifecyclePlugins, c = .stopPlugin p.2 := by
    simp only [stopPlugins, List.mem_map, List.mem_reverse, eq_comm]
  rw [stop_calls, stopStages, List.mem_append, List.mem_append, List.mem_append, List.mem_append,
    List.mem_append, haccept, hdrain, hclose, hplugins, hadmin, List.mem_singleton]
  simp only [StopCall, and_or_left, exists_or, or_assoc]

end Gateway

/-- **The lifecycle of a gateway is balanced.**  After any calls of `Register`, `Start` and
`Stop`, and whatever fails: a start that is not refused succeeds exactly if every plugin,
every server and the admin listener start.  It fails at the first that does not: at a plugin
it has started no server and stops the plugins before it, last one first; at a server, or at
the admin listener, it stops the servers before it, last one first, and then every lifecycle
plugin (`Gateway.Failure`); the gateway is then not ready.  A stop makes the calls of its
stages in their order, each once, whatever fails in them, and returns an error when one of
them did. -/
theorem gateway_lifecycle (plugins : PluginChain) (adminAddr : String) (g : Gateway)
    (h : (gateway plugins adminAddr).Reachable g) (w : World) :
    (g.snapshot.map Server.proto = g.order ∧ g.order.Nodup ∧
      ∀ s, s ∈ g.snapshot ↔ g.servers[s.proto]? = some s) ∧
    (g.ready = true ∨ g.order = [] → (g.start w).1 ≠ [] ∧ (g.start w).2 = ([], g)) ∧
    (g.ready = false → g.order ≠ [] →
      ((g.start w).1 = [] ↔ g.AllStart w) ∧
      ((g.start w).1 ≠ [] → (g.start w).2.2.ready = false ∧ (g.start w).2.1.Nodup ∧
        g.Failure w (g.start w).2.1)) ∧
    ((g.start w).1 = [] → (g.start w).2.1 = g.bringUp ∧ (g.start w).2.2.ready = true) ∧
    (g.stop w).2.1.Nodup ∧ (g.stop w).2.1.Pairwise (fun c d => c.stage ≤ d.stage) ∧
    (∀ c, c ∈ (g.stop w).2.1 ↔ g.StopCall c) ∧
    ((g.stop w).1 ≠ [] ↔ ∃ c ∈ (g.stop w).2.1, w.error c ≠ none) ∧
    (g.stop w).2.2.ready = false := by
  have hg := known_of_reachable h
  have hstop := hg.ranked_stop w
  refine ⟨⟨hg.snapshot_proto, hg.nodup, hg.mem_snapshot⟩, hg.start_refused w, ?_, ?_, hstop.nodup,
    hstop.sorted, g.mem_stop w, ?_, rfl⟩
  · intro hready hservers
    rcases hg.start_cases w hready hservers with ⟨hfail, hcalls, hstate⟩ | ⟨hok, hall, -⟩
    · refine ⟨iff_of_false hfail hcalls.not_allStart, fun _ => ⟨?_, hcalls.nodup hg, hcalls⟩⟩
      rw [hstate]
      exact hready
    · exact ⟨iff_of_true hok hall, fun hfail => absurd hok hfail⟩
  · intro hok
    have hready : g.ready = false := by
      by_contra hne
      exact (hg.start_refused w (.inl (Bool.not_eq_false _ ▸ hne))).1 hok
    have hservers : g.order ≠ [] := fun hempty => (hg.start_refused w (.inr hempty)).1 hok
    rcases hg.start_cases w hready hservers with ⟨hfail, -⟩ | ⟨-, -, hcalls, hup⟩
    · exact absurd hok hfail
    · exact ⟨hcalls, hup⟩
  · rw [Ne, Gateway.stop_error_iff]
    simp only [not_forall, exists_prop]

/-- Two servers, one of them staged, are registered and started and stopped. -/
def onceUpAndDown : List GatewayAct :=
  [.register (some ⟨"tcp", true, true⟩), .register (some ⟨"udp", false, false⟩), .register none,
    .start ⟨fun _ => none, fun _ => false⟩, .stop ⟨fun _ => none, fun _ => false⟩]

/-- The server for `"udp"` cannot start, and the plugin at the place 1 panics when stopped. -/
def udpFails : World where
  fails c := if c = .start "udp" then some (.other "boom") else none
  panics c := c = .stopPlugin 1

theorem gateway_lifecycle_udpFails : ∃ g : Gateway,
    (gateway ⟨[⟨1, "a", 5, true⟩, ⟨2, "b", 7, true⟩]⟩ "").Reachable g ∧
      (g.start udpFails).1 = [.other "boom"] ∧ (g.start udpFails).2.2.ready = false ∧
      (g.start udpFails).2.1.Nodup ∧ (g.stop udpFails).1 ≠ [] := by
  have hrun : (((gateway ⟨[⟨1, "a", 5, true⟩, ⟨2, "b", 7, true⟩]⟩ "").run
      (.new ⟨[⟨1, "a", 5, true⟩, ⟨2, "b", 7, true⟩]⟩ "") onceUpAndDown).map fun g =>
        (g.ready, g.order, (g.start udpFails).1, g.plugins)) =
      some (false, ["tcp", "udp"], [.other "boom"],
        ⟨[⟨1, "a", 5, true⟩, ⟨2, "b", 7, true⟩]⟩) := by
    decide +kernel
  obtain ⟨g, hreach, hfacts⟩ := Machine.exists_reachable hrun rfl
  simp only [Prod.mk.injEq] at hfacts
  obtain ⟨hready, horder, hstart, hplugins⟩ := hfacts
  obtain ⟨-, -, hup, -, -, -, hmem, herror, -⟩ := gateway_lifecycle _ _ g hreach udpFails
  obtain ⟨hdown, hnodup, -⟩ := (hup hready (by rw [horder]; simp)).2 (by rw [hstart]; simp)
  refine ⟨g, hreach, hstart, hdown, hnodup, herror.mpr ⟨.stopPlugin 1, (hmem _).mpr ?_, by decide⟩⟩
  refine .inr (.inr (.inr (.inl ⟨(⟨2, "b", 7, true⟩, 1), ?_, rfl⟩)))
  rw [hplugins]
  decide

end SharkSocket.Runtime
