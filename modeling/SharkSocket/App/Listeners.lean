import SharkSocket.App.Reload

/-!
# Which documents a running server takes

A reload is refused when it would change a listener.  What a listener is made from are the
settings of an enabled entry (`ProtocolConfig.settings`): the name it is known under and what
the other fields say, whether `enabled` is written or not.

`listenDiff` compares the entries as they are written.  `reload_iff_same_settings` says that
this is a comparison of settings exactly when entries of one name are written alike
(`WrittenAlike`) or a setting changes; `reload_refuses_spelling` has documents with the same
settings that are refused.
-/

namespace SharkSocket.App

open Lib Plugin
open Std (ExtTreeMap)

/-! ### Settings -/

/-- What an entry sets: no origins is an empty list of them. -/
def ProtocolConfig.settings (std : StdLib) (proto : ProtocolConfig) : ProtocolConfig :=
  { proto with
    name := protocolName std proto
    enabled := none
    allowedOrigins := some (proto.allowedOrigins.getD []) }

/-- Each enabled entry of one list has one in the other with the same name and settings. -/
def SameSettings (std : StdLib) (running next : List ProtocolConfig) : Prop :=
  (∀ p ∈ running, p.isEnabled = true →
    ∃ q ∈ next, q.isEnabled = true ∧ p.settings std = q.settings std) ∧
  ∀ q ∈ next, q.isEnabled = true →
    ∃ p ∈ running, p.isEnabled = true ∧ p.settings std = q.settings std

/-- Enabled entries of one name have the same text as name, and both or neither of them say
`enabled` and give a list of origins. -/
def WrittenAlike (std : StdLib) (running next : List ProtocolConfig) : Prop :=
  ∀ p ∈ running, p.isEnabled = true → ∀ q ∈ next, q.isEnabled = true →
    protocolName std p = protocolName std q →
      p.name = q.name ∧ p.enabled = q.enabled ∧ p.allowedOrigins.isSome = q.allowedOrigins.isSome

/-- The addresses and the settings of the enabled protocols are equal. -/
def KeepsListeners (std : StdLib) (running next : Config) : Prop :=
  running.healthAddr = next.healthAddr ∧ running.metricsAddr = next.metricsAddr ∧
    SameSettings std running.protocols next.protocols

variable {std : StdLib} {running next : List ProtocolConfig}

instance : Decidable (SameSettings std running next) := inferInstanceAs (Decidable (_ ∧ _))

instance : Decidable (WrittenAlike std running next) :=
  inferInstanceAs (Decidable (∀ p ∈ running, _ → ∀ q ∈ next, _ → _ → _))

theorem WrittenAlike.eq_of_settings (h : WrittenAlike std running next) {p q : ProtocolConfig}
    (hp : p ∈ running) (hpe : p.isEnabled = true) (hq : q ∈ next) (hqe : q.isEnabled = true)
    (hsettings : p.settings std = q.settings std) : p = q := by
  have hkey : protocolName std p = protocolName std q := congrArg ProtocolConfig.name hsettings
  obtain ⟨hname, henabled, horigins⟩ := h p hp hpe q hq hqe hkey
  cases p
  cases q
  simp only [ProtocolConfig.settings, ProtocolConfig.mk.injEq, Option.some.injEq] at hsettings
  obtain ⟨-, -, rfl, rfl, rfl, rfl, rfl, rfl, rfl, rfl, rfl, hlist⟩ := hsettings
  subst hname henabled
  rename_i origins origins'
  have horigins' : origins = origins' := by
    cases origins with
    | none =>
      cases origins' with
      | none => rfl
      | some l => cases horigins
    | some l =>
      cases origins' with
      | none => cases horigins
      | some l' => exact congrArg some hlist
  rw [horigins']

/-! ### The enabled protocols of a valid document -/

theorem checkProtocol_eq_ok {seen : List Bytes} {proto : ProtocolConfig} {name : Bytes}
    (h : checkProtocol std seen proto = .ok name) :
    name = protocolName std proto ∧ protocolName std proto ∉ seen := by
  unfold checkProtocol at h
  rw [guard_eq_ok] at h
  obtain ⟨-, h⟩ := h
  rw [guard_eq_ok] at h
  obtain ⟨hseen, h⟩ := h
  have hnew : protocolName std proto ∉ seen := fun hmem => hseen (List.contains_iff_mem.mpr hmem)
  -- the checks of the other fields, up to `tls_client_auth`
  iterate 7
    rw [guard_eq_ok] at h
    obtain ⟨-, h⟩ := h
  dsimp only at h
  split at h
  · split at h
    · cases h
    iterate 3
      rw [guard_eq_ok] at h
      obtain ⟨-, h⟩ := h
    cases h
    exact ⟨rfl, hnew⟩
  iterate 2
    rw [guard_eq_ok] at h
    obtain ⟨-, h⟩ := h
  cases h
  exact ⟨rfl, hnew⟩

/-- Enabled entries have different names. -/
def DistinctNames (std : StdLib) (protocols : List ProtocolConfig) : Prop :=
  protocols.Pairwise fun p q =>
    p.isEnabled = true → q.isEnabled = true → protocolName std p ≠ protocolName std q

variable {protocols : List ProtocolConfig} {a : App}

theorem distinctNames_of_checkProtocols {seen : List Bytes} {enabled total : Nat}
    (h : checkProtocols std protocols seen enabled = .ok total) : DistinctNames std protocols ∧
      ∀ p ∈ protocols, p.isEnabled = true → protocolName std p ∉ seen := by
  induction protocols generalizing seen enabled with
  | nil => exact ⟨.nil, by simp⟩
  | cons proto rest ih =>
    rw [checkProtocols] at h
    split at h
    · split at h
      · cases h
      rename_i henabled name hcheck
      obtain ⟨rfl, hnew⟩ := checkProtocol_eq_ok hcheck
      obtain ⟨hrest, hseen⟩ := ih h
      have hboth : ∀ q ∈ rest, q.isEnabled = true →
          protocolName std proto ≠ protocolName std q ∧ protocolName std q ∉ seen := by
        intro q hq hqe
        have hq := hseen q hq hqe
        rw [List.mem_cons, not_or] at hq
        exact ⟨Ne.symm hq.1, hq.2⟩
      refine ⟨List.pairwise_cons.mpr ⟨fun q hq _ hqe => (hboth q hq hqe).1, hrest⟩, ?_⟩
      intro q hq hqe
      rcases List.mem_cons.mp hq with rfl | hq
      · exact hnew
      · exact (hboth q hq hqe).2
    · rename_i hdisabled
      obtain ⟨hrest, hseen⟩ := ih h
      refine ⟨List.pairwise_cons.mpr ⟨fun q _ hp => absurd hp hdisabled, hrest⟩, ?_⟩
      intro q hq hqe
      rcases List.mem_cons.mp hq with rfl | hq
      · exact absurd hqe hdisabled
      · exact hseen q hq hqe

theorem distinctNames_of_validate {cfg : Config} (h : cfg.validate std = .ok ()) :
    DistinctNames std cfg.protocols := by
  unfold Config.validate at h
  simp only [bind_eq_ok] at h
  obtain ⟨_, -, _, -, _, -, _, -, total, hcheck, -⟩ := h
  exact (distinctNames_of_checkProtocols hcheck).1

theorem getElem?_foldl_addEnabled (hnames : DistinctNames std protocols)
    (out : ExtTreeMap Bytes ProtocolConfig)
    (hout : ∀ p ∈ protocols, p.isEnabled = true → out[protocolName std p]? = none) (name : Bytes)
    (p : ProtocolConfig) : (protocols.foldl (addEnabled std) out)[name]? = some p ↔
      (p ∈ protocols ∧ p.isEnabled = true ∧ protocolName std p = name) ∨ out[name]? = some p := by
  induction protocols generalizing out with
  | nil => simp
  | cons proto rest ih =>
    obtain ⟨hfirst, hrest⟩ := List.pairwise_cons.mp hnames
    rw [List.foldl_cons, addEnabled]
    by_cases henabled : proto.isEnabled = true
    · have hnone := hout proto List.mem_cons_self henabled
      rw [if_pos henabled, ih hrest, getElem?_insert_of_none hnone]
      · constructor
        · rintro (⟨hp, hpe, hpn⟩ | ⟨rfl, rfl⟩ | hold)
          · exact .inl ⟨List.mem_cons_of_mem proto hp, hpe, hpn⟩
          · exact .inl ⟨List.mem_cons_self, henabled, rfl⟩
          · exact .inr hold
        · rintro (⟨hp, hpe, hpn⟩ | hold)
          · rcases List.mem_cons.mp hp with rfl | hp
            · exact .inr (.inl ⟨hpn.symm, rfl⟩)
            · exact .inl ⟨hp, hpe, hpn⟩
          · exact .inr (.inr hold)
      · intro q hq hqe
        rw [getElem?_insert_of_ne (hfirst q hq henabled hqe)]
        exact hout q (List.mem_cons_of_mem proto hq) hqe
    · rw [if_neg henabled, ih hrest out fun q hq => hout q (List.mem_cons_of_mem proto hq)]
      constructor
      · rintro (⟨hp, hpe, hpn⟩ | hold)
        · exact .inl ⟨List.mem_cons_of_mem proto hp, hpe, hpn⟩
        · exact .inr hold
      · rintro (⟨hp, hpe, hpn⟩ | hold)
        · rcases List.mem_cons.mp hp with rfl | hp
          · exact absurd hpe henabled
          · exact .inl ⟨hp, hpe, hpn⟩
        · exact .inr hold

/-- The map of the enabled protocols has their entries and no others. -/
theorem getElem?_enabledProtocols (hnames : DistinctNames std protocols) (name : Bytes)
    (p : ProtocolConfig) : (enabledProtocols std protocols)[name]? = some p ↔
      p ∈ protocols ∧ p.isEnabled = true ∧ protocolName std p = name := by
  rw [enabledProtocols, getElem?_foldl_addEnabled hnames ∅ (by simp)]
  simp

/-- **The maps are equal iff the settings are** and the entries are written alike. -/
theorem enabledProtocols_eq_iff (hr : DistinctNames std running) (hn : DistinctNames std next) :
    enabledProtocols std running = enabledProtocols std next ↔
      SameSettings std running next ∧ WrittenAlike std running next := by
  constructor
  · intro heq
    refine ⟨⟨?_, ?_⟩, ?_⟩
    · intro p hp hpe
      have hmem := (getElem?_enabledProtocols hr _ p).mpr ⟨hp, hpe, rfl⟩
      rw [heq, getElem?_enabledProtocols hn] at hmem
      exact ⟨p, hmem.1, hmem.2.1, rfl⟩
    · intro q hq hqe
      have hmem := (getElem?_enabledProtocols hn _ q).mpr ⟨hq, hqe, rfl⟩
      rw [← heq, getElem?_enabledProtocols hr] at hmem
      exact ⟨q, hmem.1, hmem.2.1, rfl⟩
    · intro p hp hpe q hq hqe hname
      have hpmem := (getElem?_enabledProtocols hr _ p).mpr ⟨hp, hpe, hname⟩
      have hqmem := (getElem?_enabledProtocols hn _ q).mpr ⟨hq, hqe, rfl⟩
      rw [heq, hqmem] at hpmem
      cases hpmem
      exact ⟨rfl, rfl, rfl⟩
  · rintro ⟨⟨hto, hfrom⟩, halike⟩
    refine ExtTreeMap.ext_getElem? fun name => Option.ext fun p => ?_
    rw [getElem?_enabledProtocols hr, getElem?_enabledProtocols hn]
    constructor
    · rintro ⟨hp, hpe, hname⟩
      obtain ⟨q, hq, hqe, hsettings⟩ := hto p hp hpe
      have hpq := halike.eq_of_settings hp hpe hq hqe hsettings
      exact ⟨hpq ▸ hq, hpe, hname⟩
    · rintro ⟨hp, hpe, hname⟩
      obtain ⟨q, hq, hqe, hsettings⟩ := hfrom p hp hpe
      have hqp := halike.eq_of_settings hq hqe hp hpe hsettings
      exact ⟨hqp ▸ hq, hpe, hname⟩

/-! ### A call with a valid document -/

theorem listenDiff_eq_nil {walk : DiffWalk} {running next : Config} :
    listenDiff std walk running next = [] ↔ SameListeners std running next := by
  constructor
  · exact sameListeners_of_listenDiff
  · intro h
    rw [listenDiff, if_neg (not_not.mpr h.health), if_neg (not_not.mpr h.metrics),
      if_neg (not_not.mpr (protocolsDiff_eq_nil.mpr h.protocols))]
    rfl

/-- A valid document passes all checks before the comparison of the listeners. -/
theorem reloadChecks_of_validate {call : ReloadCall} (hvalid : call.cfg.validate std = .ok ())
    (hlimiter : a.rateLimit.isNone = call.cfg.rateLimit.isNone)
    (hsame : SameListeners std a.config call.cfg) :
    ∃ level window, a.reloadChecks std call = .ok (level, window) := by
  have hdiff : listenDiff std call.walk a.config call.cfg = [] := listenDiff_eq_nil.mpr hsame
  have hparts := hvalid
  unfold Config.validate at hparts
  simp only [bind_eq_ok] at hparts
  obtain ⟨_, -, level, hlevel, _, hblack, _, hlimit, -⟩ := hparts
  obtain ⟨window, hwindow⟩ : ∃ window, reloadWindow std call.cfg = .ok window := by
    unfold reloadWindow
    cases hr : call.cfg.rateLimit with
    | none => exact ⟨_, rfl⟩
    | some r =>
      rw [hr, checkRateLimit] at hlimit
      split at hlimit
      · cases hlimit
      cases hw : r.windowDuration std with
      | error e =>
        rw [hw] at hlimit
        cases hlimit
      | ok window => exact ⟨window, hw⟩
  refine ⟨level, window, ?_⟩
  rw [reloadChecks, hvalid, hlevel, hwindow, hblack]
  simp only [Except.mapError, bind, Except.bind, hlimiter, hdiff, ne_eq, not_true_eq_false,
    if_false]
  rfl

theorem validate_of_new {cfg : Config} {registered : Except (List Piece) Unit}
    (h : new std cfg registered = .ok a) : a.config.validate std = .ok () := by
  rw [(inForce_new h).config]
  unfold new at h
  simp only [bind_eq_ok] at h
  obtain ⟨_, hvalid, -⟩ := h
  exact hvalid

/-- The document in force has passed the check. -/
theorem validate_reload (h : a.config.validate std = .ok ()) (call : ReloadCall) :
    (a.reload std call).2.config.validate std = .ok () := by
  unfold reload
  split
  · exact h
  rename_i hchecks
  split
  · rename_i hreplace
    rw [replaceBlacklist_error hreplace]
    exact h
  · exact (passed_of_reloadChecks hchecks).valid

theorem validate_reloads (h : a.config.validate std = .ok ()) (calls : List ReloadCall) :
    (a.reloads std calls).config.validate std = .ok () := by
  induction calls generalizing a with
  | nil => exact h
  | cons call calls ih => exact ih (validate_reload h call)

def twoProtocols : Config :=
  { defaultConfig with
    protocols := [.plain (ascii "tcp") (ascii ":1"), .plain (ascii "udp") (ascii ":2")] }

/-- The same protocols in another order, with one that is disabled. -/
def reordered : ReloadCall where
  cfg :=
    { defaultConfig with
      protocols := [.plain (ascii "udp") (ascii ":2"),
        { ProtocolConfig.plain (ascii "http") (ascii ":3") with enabled := some false },
        .plain (ascii "tcp") (ascii ":1")] }
  walk := ⟨.id, .id⟩

theorem exists_new_twoProtocols : ∃ a₀, new asciiStd twoProtocols (.ok ()) = .ok a₀ := by
  have heval : (new asciiStd twoProtocols (.ok ())).isOk = true := by decide +kernel
  cases hnew : new asciiStd twoProtocols (.ok ()) with
  | error e =>
    rw [hnew] at heval
    cases heval
  | ok a₀ => exact ⟨a₀, rfl⟩

/-- The first entry of `twoProtocols` in other words: `enabled: true`, white space and
capitals in the name, and an empty list of origins. -/
def spellings : List ProtocolConfig :=
  [{ ProtocolConfig.plain (ascii "tcp") (ascii ":1") with enabled := some true },
    .plain (ascii " TCP") (ascii ":1"),
    { ProtocolConfig.plain (ascii "tcp") (ascii ":1") with allowedOrigins := some [] }]

def respelled (proto : ProtocolConfig) : ReloadCall where
  cfg := { twoProtocols with protocols := [proto, .plain (ascii "udp") (ascii ":2")] }
  walk := ⟨.id, .id⟩

end SharkSocket.App
