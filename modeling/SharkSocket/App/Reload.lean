import SharkSocket.App.Config
import SharkSocket.Lib.Fallible
import SharkSocket.Lib.Walk

/-!
# `app/reload.go`: a new configuration for a running server

`App.reload` checks the whole document first and applies it after that.  What it
applies is the block list, the limits of the rate limiter, the log level and the
configuration in force; a document that would move a listener is refused
(`listenDiff`), and so is one that would add or remove the rate limiter.

The checks before the lock read the document and the handle of the rate limiter,
which no call writes, so calls at the same time are calls in some order.

* `protocolsDiff_eq_nil`: no difference is reported iff the maps of the enabled
  protocols are equal, in whatever order they are walked;
* `InForce`: all parts of the server that a document sets are as it says;
* `reload_all_or_nothing`: over any sequence of calls, a call leaves the server as
  it was or puts the document in force, and the listeners stay those of the start.
-/

namespace SharkSocket

open Lib Plugin
open Std (ExtTreeMap)

namespace App

/-! ### What needs a restart -/

section Diff

variable (std : StdLib)

/-- The body of `enabledProtocols`: a later entry of the same name replaces an earlier. -/
def addEnabled (out : ExtTreeMap Bytes ProtocolConfig) (proto : ProtocolConfig) :
    ExtTreeMap Bytes ProtocolConfig :=
  if proto.isEnabled then out.insert (protocolName std proto) proto else out

def enabledProtocols (protocols : List ProtocolConfig) : ExtTreeMap Bytes ProtocolConfig :=
  protocols.foldl (addEnabled std) ∅

/-- The orders in which `protocolsDiff` walks its two maps. -/
structure DiffWalk where
  incoming : WalkOrder (Bytes × ProtocolConfig)
  current : WalkOrder (Bytes × ProtocolConfig)

/-- What the first loop says of an entry. -/
def changedEntry (current : ExtTreeMap Bytes ProtocolConfig) (entry : Bytes × ProtocolConfig) :
    Option Bytes :=
  match current[entry.1]? with
  | none => some (ascii "protocols." ++ entry.1 ++ ascii " (added)")
  | some old => if old = entry.2 then none else some (ascii "protocols." ++ entry.1)

/-- What the second loop says of an entry. -/
def removedEntry (incoming : ExtTreeMap Bytes ProtocolConfig) (entry : Bytes × ProtocolConfig) :
    Option Bytes :=
  if entry.1 ∈ incoming then none
  else some (ascii "protocols." ++ entry.1 ++ ascii " (removed)")

def protocolsDiff (walk : DiffWalk) (running next : List ProtocolConfig) : Bytes :=
  let current := enabledProtocols std running
  let incoming := enabledProtocols std next
  match (walk.incoming.order incoming.toList).findSome? (changedEntry current) with
  | some diff => diff
  | none => ((walk.current.order current.toList).findSome? (removedEntry incoming)).getD []

def listenDiff (walk : DiffWalk) (running next : Config) : Bytes :=
  let diff := protocolsDiff std walk running.protocols next.protocols
  List.intercalate (ascii ", ")
    ((if running.healthAddr ≠ next.healthAddr then [ascii "health_addr"] else []) ++
      (if running.metricsAddr ≠ next.metricsAddr then [ascii "metrics_addr"] else []) ++
      (if diff ≠ [] then [diff] else []))

variable {std} {walk : DiffWalk} {entry : Bytes × ProtocolConfig}

theorem changedEntry_eq_none {current : ExtTreeMap Bytes ProtocolConfig} :
    changedEntry current entry = none ↔ current[entry.1]? = some entry.2 := by
  unfold changedEntry
  cases current[entry.1]? with
  | none | some old => simp

theorem removedEntry_eq_none {incoming : ExtTreeMap Bytes ProtocolConfig} :
    removedEntry incoming entry = none ↔ entry.1 ∈ incoming := by
  simp [removedEntry]

theorem ne_nil_of_changedEntry {current : ExtTreeMap Bytes ProtocolConfig} {diff : Bytes}
    (h : changedEntry current entry = some diff) : diff ≠ [] := by
  have hhead : ascii "protocols." ≠ [] := by decide
  unfold changedEntry at h
  split at h
  · cases h
    simp [hhead]
  split at h
  · cases h
  cases h
  simp [hhead]

theorem ne_nil_of_removedEntry {incoming : ExtTreeMap Bytes ProtocolConfig} {diff : Bytes}
    (h : removedEntry incoming entry = some diff) : diff ≠ [] := by
  have hhead : ascii "protocols." ≠ [] := by decide
  unfold removedEntry at h
  split at h
  · cases h
  cases h
  simp [hhead]

/-- **The comparison is exact**, for every order of the two walks. -/
theorem protocolsDiff_eq_nil {running next : List ProtocolConfig} :
    protocolsDiff std walk running next = [] ↔
      enabledProtocols std running = enabledProtocols std next := by
  unfold protocolsDiff
  dsimp only
  generalize enabledProtocols std running = current
  generalize enabledProtocols std next = incoming
  constructor
  · intro h
    split at h
    · -- the first loop stopped at an entry
      rename_i diff hfound
      obtain ⟨entry, -, hentry⟩ := List.exists_of_findSome?_eq_some hfound
      exact absurd h (ne_nil_of_changedEntry hentry)
    rename_i hsame
    -- every incoming entry is a current one
    simp only [WalkOrder.findSome?_eq_none, changedEntry_eq_none] at hsame
    have hnone : (walk.current.order current.toList).findSome? (removedEntry incoming) = none := by
      cases hfound : (walk.current.order current.toList).findSome? (removedEntry incoming) with
      | none => rfl
      | some diff =>
        obtain ⟨entry, -, hentry⟩ := List.exists_of_findSome?_eq_some hfound
        rw [hfound] at h
        exact absurd h (ne_nil_of_removedEntry hentry)
    simp only [WalkOrder.findSome?_eq_none, removedEntry_eq_none] at hnone
    apply ExtTreeMap.ext_getElem?
    intro name
    cases hcur : current[name]? with
    | none =>
      cases hinc : incoming[name]? with
      | none => rfl
      | some proto =>
        rw [hsame name proto hinc] at hcur
        cases hcur
    | some old =>
      obtain ⟨proto, hproto⟩ := mem_iff_getElem?.mp (hnone name old hcur)
      rw [hproto, ← hcur, hsame name proto hproto]
  · rintro rfl
    have hsame : (walk.incoming.order current.toList).findSome? (changedEntry current) = none := by
      simp only [WalkOrder.findSome?_eq_none, changedEntry_eq_none]
      exact fun _ _ hproto => hproto
    have hkept : (walk.current.order current.toList).findSome? (removedEntry current) = none := by
      simp only [WalkOrder.findSome?_eq_none, removedEntry_eq_none]
      exact fun _ _ hproto => mem_iff_getElem?.mpr ⟨_, hproto⟩
    rw [hsame, hkept]
    rfl

variable (std) in
/-- The part of two configurations that sockets and handlers were made from is equal. -/
structure SameListeners (running next : Config) : Prop where
  health : running.healthAddr = next.healthAddr
  metrics : running.metricsAddr = next.metricsAddr
  protocols : enabledProtocols std running.protocols = enabledProtocols std next.protocols

theorem SameListeners.refl (c : Config) : SameListeners std c c := ⟨rfl, rfl, rfl⟩

theorem SameListeners.trans {a b c : Config} (hab : SameListeners std a b)
    (hbc : SameListeners std b c) : SameListeners std a c :=
  ⟨hab.health.trans hbc.health, hab.metrics.trans hbc.metrics, hab.protocols.trans hbc.protocols⟩

theorem sameListeners_of_listenDiff {running next : Config}
    (h : listenDiff std walk running next = []) : SameListeners std running next := by
  have hparts := eq_nil_of_intercalate h
  have hprotocols : protocolsDiff std walk running.protocols next.protocols = [] := by
    by_contra hne
    exact hne (hparts _ (by rw [if_pos hne]; simp))
  refine ⟨?_, ?_, protocolsDiff_eq_nil.mp hprotocols⟩
  · by_contra hne
    exact absurd (hparts (ascii "health_addr") (by simp [hne])) (by decide)
  · by_contra hne
    exact absurd (hparts (ascii "metrics_addr") (by simp [hne])) (by decide)

end Diff

/-! ### The server -/

end App

/-- The fields of `App` that a configuration sets. -/
structure App where
  config : App.Config
  blacklist : Option Blacklist
  rateLimit : Option RateLimit
  level : App.Level

namespace App

variable (std : StdLib)

/-- The limiter that `New` installs. -/
def newRateLimit : Option RateLimitConfig → Except (List Piece) (Option RateLimit)
  | none => .ok none
  | some r => (r.windowDuration std).map fun window => some (RateLimit.new r.perSecond window)

/-- `New`; `registered` is what `registerProtocols` returned. -/
def new (cfg : Config) (registered : Except (List Piece) Unit) : Except (List Piece) App := do
  cfg.validate std
  let level ← parseLevel std cfg.logLevel
  let rateLimit ← newRateLimit std cfg.rateLimit
  registered
  return ⟨cfg, some (newBlacklist cfg.blacklist), rateLimit, level⟩

/-- `listenChange` wraps `ErrListenChangeRequiresRestart`. -/
inductive ReloadError
  | invalid (text : List Piece)
  | listenChange (detail : Bytes)
  deriving DecidableEq, Repr

/-- A call of `Reload`, with the orders of its walks over the protocol maps. -/
structure ReloadCall where
  cfg : Config
  walk : DiffWalk

/-- The window `Reload` computes before anything else is looked at. -/
def reloadWindow (cfg : Config) : Except (List Piece) Int :=
  match cfg.rateLimit with
  | none => .ok second
  | some r => r.windowDuration std

/-- `Reload` up to the point after which nothing can fail: the level and the window. -/
def reloadChecks (a : App) (call : ReloadCall) : Except ReloadError (Level × Int) := do
  (call.cfg.validate std).mapError .invalid
  let level ← (parseLevel std call.cfg.logLevel).mapError .invalid
  let window ← (reloadWindow std call.cfg).mapError .invalid
  (validateBlacklist call.cfg.blacklist).mapError .invalid
  if a.rateLimit.isNone ≠ call.cfg.rateLimit.isNone then
    throw (.listenChange (ascii "enabling or disabling rate_limit adds or removes a plugin"))
  if listenDiff std call.walk a.config call.cfg ≠ [] then
    throw (.listenChange (listenDiff std call.walk a.config call.cfg))
  return (level, window)

/-- `a.blacklist.Replace`, if there is a block list. -/
def replaceBlacklist (a : App) (entries : List Bytes) : Option (List Piece) × App :=
  match a.blacklist with
  | none => (none, a)
  | some blacklist =>
    let (err, blacklist) := blacklist.replace entries
    (err, { a with blacklist := some blacklist })

def setLimit (a : App) (cfg : Config) (window : Int) : App :=
  match a.rateLimit, cfg.rateLimit with
  | some p, some r => { a with rateLimit := some (p.setLimit r.perSecond window) }
  | _, _ => a

def reload (a : App) (call : ReloadCall) : Option ReloadError × App :=
  match a.reloadChecks std call with
  | .error e => (some e, a)
  | .ok (level, window) =>
    match a.replaceBlacklist call.cfg.blacklist with
    | (some e, a) => (some (.invalid e), a)
    | (none, a) =>
      (none, { a.setLimit call.cfg window with level := level, config := call.cfg })

/-- The server after a sequence of calls, whatever they returned. -/
def reloads (a : App) : List ReloadCall → App
  | [] => a
  | call :: calls => (a.reload std call).2.reloads calls

/-! ### What a configuration puts in force -/

/-- The limiter is the one a configuration asks for. -/
def LimitedAs (rateLimit : Option RateLimit) (cfg : Option RateLimitConfig) : Prop :=
  match rateLimit, cfg with
  | none, none => True
  | some p, some r => p.rate = r.perSecond ∧ r.windowDuration std = .ok p.window
  | _, _ => False

/-- **Everything a configuration sets is as it says.** -/
structure InForce (cfg : Config) (a : App) : Prop where
  config : a.config = cfg
  blacklist : ∃ set, parseBlacklist cfg.blacklist = .ok set ∧ a.blacklist = some ⟨set⟩
  limit : LimitedAs std a.rateLimit cfg.rateLimit
  level : parseLevel std cfg.logLevel = .ok a.level

variable {std}

/-- A duration that passes the check is positive. -/
theorem positiveDuration_pos {field : String} {value : Bytes} {d : Int}
    (h : positiveDuration std field value = .ok d) : 0 < d := by
  unfold positiveDuration at h
  split at h
  · cases h
  split at h
  · cases h
  cases h
  omega

variable {window : Int} {cfg : Config} {a : App} {call : ReloadCall}

theorem windowDuration_pos {r : RateLimitConfig} (h : r.windowDuration std = .ok window) :
    0 < window := by
  unfold RateLimitConfig.windowDuration at h
  split at h
  · cases h
    decide
  · exact positiveDuration_pos h

/-- Positive values are stored as they are. -/
theorem setLimit_pos (p : RateLimit) {rate window : Int} (hr : 0 < rate) (hw : 0 < window) :
    (p.setLimit rate window).rate = rate ∧ (p.setLimit rate window).window = window := by
  constructor
  · show (if rate ≤ 0 then 1 else rate) = rate
    rw [if_neg (by omega)]
  · show (if window ≤ 0 then second else window) = window
    rw [if_neg (by omega)]

theorem limitedAs_setLimit {p : RateLimit} {r : RateLimitConfig} (hr : 0 < r.perSecond)
    (hw : r.windowDuration std = .ok window) :
    LimitedAs std (some (p.setLimit r.perSecond window)) (some r) := by
  obtain ⟨hrate, hwindow⟩ := setLimit_pos p hr (windowDuration_pos hw)
  exact ⟨hrate, by rw [hw, hwindow]⟩

/-- What the check of a document says about the parts that are applied. -/
theorem of_validate (h : cfg.validate std = .ok ()) :
    (∃ set, parseBlacklist cfg.blacklist = .ok set) ∧
      ∀ r, cfg.rateLimit = some r → 0 < r.perSecond := by
  unfold Config.validate at h
  simp only [bind_eq_ok] at h
  obtain ⟨_, -, _, -, _, hblack, _, hlimit, -⟩ := h
  refine ⟨validateBlacklist_eq_ok.mp hblack, ?_⟩
  intro r hr
  rw [hr] at hlimit
  simp only [checkRateLimit] at hlimit
  split at hlimit
  · cases hlimit
  · omega

/-- A server starts with its configuration in force. -/
theorem inForce_new {registered : Except (List Piece) Unit} (h : new std cfg registered = .ok a) :
    InForce std cfg a := by
  unfold new at h
  simp only [bind_eq_ok] at h
  obtain ⟨_, hvalid, level, hlevel, limiter, hlimiter, _, -, ha⟩ := h
  cases ha
  obtain ⟨⟨set, hset⟩, hpos⟩ := of_validate hvalid
  refine ⟨rfl, ⟨set, hset, by rw [newBlacklist_of_parse hset]⟩, ?_, hlevel⟩
  cases hr : cfg.rateLimit with
  | none =>
    rw [hr] at hlimiter
    cases hlimiter
    trivial
  | some r =>
    rw [hr] at hlimiter
    cases hw : r.windowDuration std with
    | error e =>
      rw [newRateLimit, hw] at hlimiter
      cases hlimiter
    | ok window =>
      rw [newRateLimit, hw] at hlimiter
      cases hlimiter
      exact limitedAs_setLimit (hpos r hr) hw

variable (std) in
/-- What a document that passes all checks satisfies. -/
structure Passed (a : App) (cfg : Config) (level : Level) (window : Int) : Prop where
  valid : cfg.validate std = .ok ()
  level : parseLevel std cfg.logLevel = .ok level
  window : reloadWindow std cfg = .ok window
  limiter : a.rateLimit.isNone = cfg.rateLimit.isNone
  listeners : SameListeners std a.config cfg

theorem passed_of_reloadChecks {level : Level} (h : a.reloadChecks std call = .ok (level, window)) :
    Passed std a call.cfg level window := by
  unfold reloadChecks at h
  simp only [bind_eq_ok, mapError_eq_ok] at h
  obtain ⟨_, hvalid, level', hlevel, window', hwindow, _, -, h⟩ := h
  split at h
  · cases h
  rename_i hlimiter
  split at h
  · cases h
  rename_i hdiff
  cases h
  exact ⟨hvalid, hlevel, hwindow, not_not.mp hlimiter,
    sameListeners_of_listenDiff (not_not.mp hdiff)⟩

/-! ### One call -/

/-- A block list that does not parse leaves the server as it is. -/
theorem replaceBlacklist_error {a a' : App} {entries : List Bytes} {e : List Piece}
    (h : a.replaceBlacklist entries = (some e, a')) : a' = a := by
  obtain ⟨config, blacklist, rateLimit, level⟩ := a
  cases blacklist with
  | none => cases h
  | some blacklist =>
    cases hparse : parseBlacklist entries with
    | error e =>
      simp only [replaceBlacklist, Blacklist.replace, hparse] at h
      cases h
      rfl
    | ok set =>
      simp only [replaceBlacklist, replace_of_parse hparse] at h
      cases h

/-- One that parses is installed, and nothing else changes. -/
theorem replaceBlacklist_ok {old : Blacklist} (hold : a.blacklist = some old) {entries : List Bytes}
    {set : BlacklistSet} (hset : parseBlacklist entries = .ok set) :
    a.replaceBlacklist entries = (none, { a with blacklist := some ⟨set⟩ }) := by
  unfold replaceBlacklist
  rw [hold]
  dsimp only
  rw [replace_of_parse hset]

/-- The limiter after a document that passed. -/
theorem limitedAs_of_passed {level : Level} (h : Passed std a cfg level window) :
    LimitedAs std (a.setLimit cfg window).rateLimit cfg.rateLimit ∧
      (a.setLimit cfg window).rateLimit.isNone = a.rateLimit.isNone := by
  have hpos := (of_validate h.valid).2
  have hwindow := h.window
  have hlimiter := h.limiter
  cases hr : cfg.rateLimit with
  | none =>
    cases hp : a.rateLimit with
    | none =>
      have hsame : a.setLimit cfg window = a := by simp only [setLimit, hp]
      rw [hsame, hp]
      exact ⟨trivial, rfl⟩
    | some p =>
      rw [hp, hr] at hlimiter
      cases hlimiter
  | some r =>
    cases hp : a.rateLimit with
    | none =>
      rw [hp, hr] at hlimiter
      cases hlimiter
    | some p =>
      simp only [reloadWindow, hr] at hwindow
      simp only [setLimit, hp, hr]
      exact ⟨limitedAs_setLimit (hpos r hr) hwindow, rfl⟩

@[simp] theorem setLimit_blacklist (a : App) (cfg : Config) (window : Int) :
    (a.setLimit cfg window).blacklist = a.blacklist := by
  unfold setLimit
  split <;> rfl

/-- **A call that fails changes nothing.** -/
theorem reload_error {a a' : App} {e : ReloadError} (h : a.reload std call = (some e, a')) :
    a' = a := by
  unfold reload at h
  split at h
  · cases h
    rfl
  split at h
  · rename_i hreplace
    cases h
    exact replaceBlacklist_error hreplace
  · cases h

/-- **A call that succeeds applies the whole document**, which has the listeners and
the rate limiter of the server. -/
theorem reload_ok {a a' : App} {old : Blacklist} (hold : a.blacklist = some old)
    (h : a.reload std call = (none, a')) :
    InForce std call.cfg a' ∧ SameListeners std a.config call.cfg ∧
      a'.rateLimit.isNone = a.rateLimit.isNone := by
  unfold reload at h
  split at h
  · cases h
  rename_i level window hchecks
  have hpassed := passed_of_reloadChecks hchecks
  obtain ⟨set, hset⟩ := (of_validate hpassed.valid).1
  rw [replaceBlacklist_ok hold hset] at h
  -- the checks looked at the limiter and the configuration only
  have hinstalled : Passed std { a with blacklist := some ⟨set⟩ } call.cfg level window :=
    ⟨hpassed.valid, hpassed.level, hpassed.window, hpassed.limiter, hpassed.listeners⟩
  obtain ⟨hlimit, hlimiter⟩ := limitedAs_of_passed hinstalled
  cases h
  exact ⟨⟨rfl, ⟨set, hset, setLimit_blacklist _ _ _⟩, hlimit, hpassed.level⟩,
    hpassed.listeners, hlimiter⟩

/-! ### Any sequence of calls -/

variable (std) in
/-- The server started with `cfg₀` runs under the configuration it holds. -/
structure Running (cfg₀ : Config) (a : App) : Prop where
  inForce : InForce std a.config a
  listeners : SameListeners std cfg₀ a.config
  limiter : a.rateLimit.isSome = cfg₀.rateLimit.isSome

theorem LimitedAs.isSome_eq {rateLimit : Option RateLimit} {cfg : Option RateLimitConfig}
    (h : LimitedAs std rateLimit cfg) : rateLimit.isSome = cfg.isSome := by
  cases rateLimit with
  | none =>
    cases cfg with
    | none => rfl
    | some r => exact h.elim
  | some p =>
    cases cfg with
    | none => exact h.elim
    | some r => rfl

theorem Running.of_new {registered : Except (List Piece) Unit} (h : new std cfg registered = .ok a) :
    Running std cfg a := by
  have hforce := inForce_new h
  refine ⟨?_, ?_, hforce.limit.isSome_eq⟩
  · rw [hforce.config]
    exact hforce
  · rw [hforce.config]
    exact .refl cfg

theorem Running.reload {cfg₀ : Config} (h : Running std cfg₀ a) (call : ReloadCall) :
    Running std cfg₀ (a.reload std call).2 := by
  rcases hcall : a.reload std call with ⟨err, a'⟩
  cases err with
  | some e =>
    rw [reload_error hcall]
    exact h
  | none =>
    obtain ⟨set, -, hold⟩ := h.inForce.blacklist
    obtain ⟨hforce, hsame, hlimiter⟩ := reload_ok hold hcall
    refine ⟨?_, ?_, ?_⟩
    · show InForce std a'.config a'
      rw [hforce.config]
      exact hforce
    · show SameListeners std cfg₀ a'.config
      rw [hforce.config]
      exact h.listeners.trans hsame
    · show a'.rateLimit.isSome = cfg₀.rateLimit.isSome
      rw [← h.limiter, ← Option.not_isNone, hlimiter, Option.not_isNone]

theorem Running.reloads {cfg₀ : Config} (h : Running std cfg₀ a) (calls : List ReloadCall) :
    Running std cfg₀ (a.reloads std calls) := by
  induction calls generalizing a with
  | nil => exact h
  | cons call calls ih => exact ih (h.reload call)

/-- **Reloading is all or nothing.**  After any sequence of calls the listeners and
the presence of a rate limiter are those of the start, and the next call either
returns an error and leaves the server exactly as it is, or returns nil and puts
the whole document in force. -/
theorem reload_all_or_nothing {cfg₀ : Config} {registered : Except (List Piece) Unit} {a₀ : App}
    (hnew : new std cfg₀ registered = .ok a₀) (calls : List ReloadCall) :
    let a := a₀.reloads std calls
    SameListeners std cfg₀ a.config ∧ a.rateLimit.isSome = cfg₀.rateLimit.isSome ∧
      InForce std a.config a ∧
      ∀ call : ReloadCall,
        match a.reload std call with
        | (some _, a') => a' = a
        | (none, a') => InForce std call.cfg a' := by
  intro a
  have hrun : Running std cfg₀ a := (Running.of_new hnew).reloads calls
  refine ⟨hrun.listeners, hrun.limiter, hrun.inForce, ?_⟩
  intro call
  rcases hcall : a.reload std call with ⟨err, a'⟩
  cases err with
  | some e => exact reload_error hcall
  | none =>
    obtain ⟨set, -, hold⟩ := hrun.inForce.blacklist
    exact (reload_ok hold hcall).1

/-- A library that knows one duration. -/
def asciiStd : StdLib where
  toLower := toLower
  parseDuration s :=
    if s = ascii "10s" then .ok (10 * second)
    else .error [.text "time: invalid duration ", .quoted s]

def limitedConfig : Config := { defaultConfig with rateLimit := some ⟨100, []⟩ }

/-- Tighter limits, a network to block and more logging. -/
def tightened : ReloadCall where
  cfg :=
    { limitedConfig with
      blacklist := [ascii "10.0.0.0/8", ascii "::ffff:192.0.2.7"]
      rateLimit := some ⟨5, ascii "10s"⟩
      logLevel := ascii " DEBUG" }
  walk := ⟨.id, .id⟩

/-- A block list that would pass, together with another port. -/
def movedListener : ReloadCall where
  cfg :=
    { limitedConfig with
      blacklist := [ascii "192.0.2.1"]
      protocols := [.plain (ascii "TCP") (ascii "127.0.0.1:18002")] }
  walk := ⟨.id, .id⟩

/-- The first call is applied, the second is refused as a whole. -/
theorem reload_all_or_nothing_tightened :
    ∃ a₀, new asciiStd limitedConfig (.ok ()) = .ok a₀ ∧
      (a₀.reload asciiStd tightened).1 = none ∧
      ((a₀.reloads asciiStd [tightened]).reload asciiStd movedListener).1 =
        some (.listenChange (ascii "protocols.tcp")) ∧
      let a := a₀.reloads asciiStd [tightened]
      SameListeners asciiStd limitedConfig a.config ∧
        a.rateLimit.isSome = limitedConfig.rateLimit.isSome ∧ InForce asciiStd a.config a ∧
        ∀ call : ReloadCall,
          match a.reload asciiStd call with
          | (some _, a') => a' = a
          | (none, a') => InForce asciiStd call.cfg a' := by
  have heval : (new asciiStd limitedConfig (.ok ())).map (fun a₀ =>
      ((a₀.reload asciiStd tightened).1,
        ((a₀.reloads asciiStd [tightened]).reload asciiStd movedListener).1)) =
      .ok (none, some (.listenChange (ascii "protocols.tcp"))) := by decide +kernel
  cases hnew : new asciiStd limitedConfig (.ok ()) with
  | error e =>
    rw [hnew] at heval
    cases heval
  | ok a₀ =>
    rw [hnew] at heval
    simp only [Except.map, Except.ok.injEq, Prod.mk.injEq] at heval
    exact ⟨a₀, rfl, heval.1, heval.2, reload_all_or_nothing hnew [tightened]⟩

end App

end SharkSocket
