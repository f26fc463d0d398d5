import SharkSocket.Coap.Registry

/-!
# What the registry's counters count

`total` is the number of stored relations in every run.  The count of a remote
is the number of its relations as long as no remote contains a `/`: a key is the
remote, a `/` and the token, and `removeLocked` takes the remote of its caller
for that of the relation it finds under the key.

An inner map is dropped when it loses its last relation, so a resource has an
entry only while it has relations, with one exception: a `Register` that is
refused has made the entry already and leaves it behind.
-/

namespace SharkSocket.Coap

open Std (ExtTreeMap)
open Lib

namespace ObserverRegistry

variable {r : ObserverRegistry} {resource remote token key old : Bytes} {obs : Observer}

/-! ### Relations per operation -/

theorem number_touch (P : Observer → Bool) (r : ObserverRegistry) (resource : Bytes) :
    number P (r.subs.insert resource (r.subsOf resource)) = number P r.subs :=
  Nat.add_right_cancel (number_insert P r.subs resource (r.subsOf resource))

theorem number_added (P : Observer → Bool) (h : (r.subsOf resource)[key]? = none) :
    number P (r.subs.insert resource ((r.subsOf resource).insert key obs)) =
      number P r.subs + (P obs).toNat := by
  have hinsert := number_insert P r.subs resource ((r.subsOf resource).insert key obs)
  rw [countSubs_insert h] at hinsert
  unfold subsOf at hinsert ⊢
  omega

theorem getElem?_erase_of_none {subs : Subs} (h : subs[key]? = none) (old : Bytes) :
    (subs.erase old)[key]? = none := by
  rw [ExtTreeMap.getElem?_erase, h, ite_self]

theorem number_replaced (P : Observer → Bool) (new : Observer)
    (h : (r.subsOf resource)[key]? = none) (hold : (r.subsOf resource)[old]? = some obs) :
    number P (r.subs.insert resource (((r.subsOf resource).erase old).insert key new)) +
      (P obs).toNat = number P r.subs + (P new).toNat := by
  have hinsert := number_insert P r.subs resource (((r.subsOf resource).erase old).insert key new)
  rw [countSubs_insert (getElem?_erase_of_none h old)] at hinsert
  have herase := countSubs_erase (P := P) hold
  unfold subsOf at hinsert herase ⊢
  omega

theorem number_removed (P : Observer → Bool) {subs : Subs} (hs : r.subs[resource]? = some subs)
    (hobs : subs[key]? = some obs) :
    number P (store r.subs resource (subs.erase key)) + (P obs).toNat = number P r.subs := by
  have hstore := number_store P r.subs resource (subs.erase key)
  have herase := countSubs_erase (P := P) hobs
  rw [hs, Option.getD_some] at hstore
  omega

/-! ### The total -/

structure Totalled (r : ObserverRegistry) : Prop where
  total_eq : r.total = number (fun _ => true) r.subs
  total_le : r.total ≤ maxObserversTotal

theorem totalled_new : new.Totalled where
  total_eq := by simp [new, number]
  total_le := by decide

theorem Totalled.register (h : r.Totalled) {walk : WalkOrder (Bytes × Observer)} :
    (r.register walk resource remote token).1.Totalled := by
  generalize hq : r.register walk resource remote token = q
  cases register_cases hq with
  | found | refused => exact ⟨by rw [number_touch]; exact h.total_eq, h.total_le⟩
  | replaced hkey hold _ =>
    refine ⟨?_, h.total_le⟩
    have hnumber := number_replaced (fun _ => true) ⟨r.fresh, token, remote, resource⟩
      hkey hold
    rw [Nat.add_right_cancel hnumber]
    exact h.total_eq
  | added hkey _ hfull =>
    refine ⟨?_, ?_⟩
    · rw [number_added _ hkey, Nat.cast_add, ← h.total_eq]
      rfl
    · have hlt : ¬ maxObserversTotal ≤ r.total := fun hle => hfull (.inr hle)
      show r.total + 1 ≤ maxObserversTotal
      omega

theorem Totalled.removeLocked (h : r.Totalled) :
    (r.removeLocked resource remote token).Totalled := by
  rcases removeLocked_cases r resource remote token with heq | ⟨subs, obs, hs, hobs, heq⟩
  · rw [heq]
    exact h
  rw [heq]
  have hnumber := number_removed (fun _ => true) hs hobs
  have htotal := h.total_eq
  have hle := h.total_le
  rw [Bool.toNat_true] at hnumber
  refine ⟨?_, ?_⟩
  · show r.total - 1 = number _ (store r.subs resource (subs.erase (observerKey remote token)))
    omega
  · show r.total - 1 ≤ _
    omega

theorem Totalled.removeBySession (h : r.Totalled) : (r.removeBySession remote).Totalled := by
  have htotal := total_removeBySession r remote
  have hnumber := number_removeBySession (fun _ => true) r remote
  have hle : number (fun obs => decide (obs.remote ≠ remote) && true) r.subs ≤
      number (fun _ => true) r.subs := by
    refine weigh_mono fun _ s _ => weigh_mono fun _ o _ => ?_
    split <;> simp
  have heq := h.total_eq
  have hmax := h.total_le
  refine ⟨?_, ?_⟩ <;> omega

theorem Totalled.apply (h : r.Totalled) (op : RegistryOp) : (r.apply op).Totalled := by
  cases op with
  | register walk resource remote token => exact h.register
  | remove resource remote token => exact h.removeLocked
  | removeByToken remote token => exact removeByToken_induction (fun _ _ hr => hr.removeLocked) h
  | removeBySession remote => exact h.removeBySession

/-! ### Entries -/

def EntriesHeld (r : ObserverRegistry) : Prop :=
  ∀ (resource : Bytes) (subs : Subs), r.subs[resource]? = some subs → subs.size ≠ 0

/-- No `Register` is refused for a resource without an entry. -/
def RefusesKnown (r : ObserverRegistry) : RegistryOp → Prop
  | .register _ resource remote _ => resource ∈ r.subs ∨ ¬ r.Full remote
  | _ => True

instance (r : ObserverRegistry) (op : RegistryOp) : Decidable (r.RefusesKnown op) :=
  match op with
  | .register _ _ _ _ => inferInstanceAs (Decidable (_ ∨ _))
  | .remove _ _ _ => .isTrue trivial
  | .removeByToken _ _ => .isTrue trivial
  | .removeBySession _ => .isTrue trivial

theorem size_insert_ne_zero (subs : Subs) (key : Bytes) (obs : Observer) :
    (subs.insert key obs).size ≠ 0 :=
  size_ne_zero (ExtTreeMap.getElem?_insert_self)

/-- A refused `Register` for a resource with an entry changes nothing. -/
theorem insert_subsOf (h : resource ∈ r.subs) :
    r.subs.insert resource (r.subsOf resource) = r.subs := by
  obtain ⟨subs, hsubs⟩ := mem_iff_getElem?.mp h
  unfold subsOf
  rw [hsubs]
  exact insert_eq_self hsubs

theorem mem_subs_of_some (h : (r.subsOf resource)[key]? = some obs) : resource ∈ r.subs := by
  by_contra hnot
  unfold subsOf at h
  rw [ExtTreeMap.getElem?_eq_none hnot] at h
  simp at h

theorem EntriesHeld.register (h : r.EntriesHeld) {walk : WalkOrder (Bytes × Observer)}
    (hok : r.RefusesKnown (.register walk resource remote token)) :
    (r.register walk resource remote token).1.EntriesHeld := by
  generalize hq : r.register walk resource remote token = q
  cases register_cases hq with
  | found hkey =>
    rw [insert_subsOf (mem_subs_of_some hkey)]
    exact h
  | replaced | added => exact forall_insert h (size_insert_ne_zero _ _ _)
  | refused _ hfull =>
    rw [insert_subsOf (hok.resolve_right (not_not.mpr hfull))]
    exact h

theorem EntriesHeld.removeLocked (h : r.EntriesHeld) :
    (r.removeLocked resource remote token).EntriesHeld := by
  rcases removeLocked_cases r resource remote token with heq | ⟨subs, obs, -, -, heq⟩
  · rw [heq]
    exact h
  rw [heq]
  intro resource' s hs'
  rcases getElem?_store hs' with ⟨-, rfl, hne⟩ | ⟨-, hold⟩
  · exact hne
  · exact h resource' s hold

/-- The sweep drops what it empties, and what was empty before. -/
theorem entriesHeld_removeBySession (r : ObserverRegistry) (remote : Bytes) :
    (r.removeBySession remote).EntriesHeld := by
  intro resource s hs
  obtain ⟨-, -, hsize, -⟩ := before_removeBySession hs
  exact hsize

theorem EntriesHeld.apply (h : r.EntriesHeld) {op : RegistryOp} (hok : r.RefusesKnown op) :
    (r.apply op).EntriesHeld := by
  cases op with
  | register walk resource remote token => exact h.register hok
  | remove resource remote token => exact h.removeLocked
  | removeByToken remote token => exact removeByToken_induction (fun _ _ hr => hr.removeLocked) h
  | removeBySession remote => exact entriesHeld_removeBySession r remote

theorem EntriesHeld.size_le (h : r.EntriesHeld) (htotal : r.Totalled) :
    (r.subs.size : Int) ≤ r.total := by
  have hle : r.subs.size ≤ number (fun _ => true) r.subs := by
    rw [← weigh_one]
    refine weigh_mono fun resource subs hs => ?_
    rw [countSubs_true]
    exact Nat.one_le_iff_ne_zero.mpr (h resource subs hs)
  rw [htotal.total_eq]
  exact_mod_cast hle

end ObserverRegistry

theorem totalled_of_reaches {ok : ObserverRegistry → RegistryOp → Prop} {r : ObserverRegistry}
    (h : registry.Reaches ok r) : r.Totalled := by
  refine h.inv (by rintro _ rfl; exact ObserverRegistry.totalled_new) ?_
  intro s op t hs _ hstep
  cases hstep
  exact hs.apply op

/-- In every run in which no `Register` is refused for a resource without an
entry, every entry holds a relation, so there are at most as many as `total`
says; a refused `Register` leaves the entries as they are just when its resource
has one. -/
theorem entries_le_total (r : ObserverRegistry)
    (h : registry.Reaches ObserverRegistry.RefusesKnown r) :
    (∀ (resource : Bytes) (subs : Subs), r.subs[resource]? = some subs → subs.size ≠ 0) ∧
    (r.subs.size : Int) ≤ r.total ∧ r.total ≤ 4096 ∧
    ∀ (walk : WalkOrder (Bytes × Observer)) (resource remote token : Bytes),
      (r.register walk resource remote token).2 = none →
      ((r.register walk resource remote token).1.subs = r.subs ↔
        r.RefusesKnown (.register walk resource remote token)) := by
  have htotal := totalled_of_reaches h
  have hheld : r.EntriesHeld := by
    refine h.inv ?_ ?_
    · rintro _ rfl resource subs hs
      simp [ObserverRegistry.new] at hs
    · intro s op t hs hok hstep
      cases hstep
      exact hs.apply hok
  refine ⟨hheld, hheld.size_le htotal, htotal.total_le, ?_⟩
  intro walk resource remote token hnone
  generalize hq : r.register walk resource remote token = q at hnone
  cases ObserverRegistry.register_cases hq with
  | refused _ hfull =>
    constructor
    · intro heq
      left
      rw [← heq]
      exact ExtTreeMap.mem_insert_self
    · intro hok
      exact ObserverRegistry.insert_subsOf (hok.resolve_right (not_not.mpr hfull))
  | found | replaced | added => cases hnone

/-- The `i`-th resource of a remote, and a token. -/
def registerNth (i : Nat) : RegistryOp := .register .id [UInt8.ofNat i] [0x61] [1]

theorem entries_le_total_two :
    ∃ r, registry.Reaches ObserverRegistry.RefusesKnown r ∧ r.subs.size = 2 ∧
      (r.subs.size : Int) ≤ r.total := by
  have hrun : (registry.runIf ObserverRegistry.RefusesKnown .new
      [registerNth 0, registerNth 1]).map (fun r => r.subs.size) = some 2 := by decide +kernel
  obtain ⟨r, hreach, hsize⟩ := Machine.exists_reaches hrun rfl
  exact ⟨r, hreach, hsize, (entries_le_total r hreach).2.1⟩

/-- The 65th resource of one remote is refused and keeps an empty entry. -/
theorem refused_leaves_entry :
    ∃ r subs, registry.Reachable r ∧ r.subs[([64] : Bytes)]? = some subs ∧ subs.size = 0 ∧
      r.total = 64 ∧ r.subs.size = 65 := by
  have hrun : (registry.run .new ((List.range 65).map registerNth)).map
      (fun r => (r.subs[([64] : Bytes)]?.map (·.size), r.total, r.subs.size)) =
      some (some 0, 64, 65) := by decide +kernel
  obtain ⟨r, hreach, heq⟩ := Machine.exists_reachable hrun rfl
  simp only [Prod.mk.injEq] at heq
  obtain ⟨hentry, htotal, hsize⟩ := heq
  obtain ⟨subs, hsubs, hzero⟩ := Option.map_eq_some_iff.mp hentry
  exact ⟨r, subs, hreach, hsubs, hzero, htotal, hsize⟩

/-! ### The count of a remote -/

/-- The separator of `observerKey`. -/
def slash : UInt8 := 0x2f

theorem observerKey_inj {remote remote' token token' : Bytes} (h : slash ∉ remote)
    (h' : slash ∉ remote') (heq : observerKey remote token = observerKey remote' token') :
    remote = remote' ∧ token = token' := by
  unfold observerKey at heq
  induction remote generalizing remote' with
  | nil =>
    cases remote' with
    | nil => exact ⟨rfl, by simpa using heq⟩
    | cons b l =>
      simp only [List.nil_append, List.cons_append, List.cons.injEq] at heq
      exact absurd (heq.1 ▸ List.mem_cons_self) h'
  | cons b l ih =>
    cases remote' with
    | nil =>
      simp only [List.nil_append, List.cons_append, List.cons.injEq] at heq
      exact absurd (heq.1 ▸ List.mem_cons_self) h
    | cons b' l' =>
      simp only [List.cons_append, List.cons.injEq] at heq
      obtain ⟨hl, htoken⟩ := ih (fun hm => h (List.mem_cons_of_mem _ hm))
        (fun hm => h' (List.mem_cons_of_mem _ hm)) heq.2
      exact ⟨by rw [heq.1, hl], htoken⟩

def RegistryOp.remote : RegistryOp → Bytes
  | .register _ _ remote _ => remote
  | .remove _ remote _ => remote
  | .removeByToken remote _ => remote
  | .removeBySession remote => remote

/-- The remote of the operation contains no `/`. -/
def PlainRemote (_ : ObserverRegistry) (op : RegistryOp) : Prop := slash ∉ op.remote

instance (r : ObserverRegistry) (op : RegistryOp) : Decidable (PlainRemote r op) :=
  inferInstanceAs (Decidable (_ ∉ _))

namespace ObserverRegistry

variable {r : ObserverRegistry} {resource remote token key old : Bytes} {obs : Observer}

/-- An inner map as it should be: relations under their own keys, one for each
remote. -/
structure WellKept (subs : Subs) : Prop where
  keyed : ∀ (key : Bytes) (obs : Observer), subs[key]? = some obs →
    key = observerKey obs.remote obs.token ∧ slash ∉ obs.remote
  single : ∀ (key key' : Bytes) (obs obs' : Observer), subs[key]? = some obs →
    subs[key']? = some obs' → obs.remote = obs'.remote → key = key'

theorem WellKept.mono {subs subs' : Subs} (h : WellKept subs)
    (hsub : ∀ (key : Bytes) (obs : Observer), subs'[key]? = some obs → subs[key]? = some obs) :
    WellKept subs' where
  keyed := fun key obs hobs => h.keyed key obs (hsub key obs hobs)
  single := fun key key' obs obs' hobs hobs' =>
    h.single key key' obs obs' (hsub key obs hobs) (hsub key' obs' hobs')

theorem WellKept.insert {subs : Subs} (h : WellKept subs) (hobs : slash ∉ obs.remote)
    (hkey : key = observerKey obs.remote obs.token)
    (hnone : ∀ (key' : Bytes) (obs' : Observer), subs[key']? = some obs' →
      obs'.remote ≠ obs.remote) : WellKept (subs.insert key obs) := by
  refine ⟨forall_insert h.keyed ⟨hkey, hobs⟩, ?_⟩
  intro k k' o o' hk hk' hremote
  rcases getElem?_insert_eq_some.mp hk with ⟨rfl, rfl⟩ | ⟨-, hold⟩
  · rcases getElem?_insert_eq_some.mp hk' with ⟨rfl, rfl⟩ | ⟨-, hold'⟩
    · rfl
    · exact absurd hremote.symm (hnone k' o' hold')
  rcases getElem?_insert_eq_some.mp hk' with ⟨rfl, rfl⟩ | ⟨-, hold'⟩
  · exact absurd hremote (hnone k o hold)
  · exact h.single k k' o o' hold hold' hremote

/-- The relations of a remote. -/
def ofRemote (remote : Bytes) (obs : Observer) : Bool := obs.remote = remote

structure Counted (r : ObserverRegistry) : Prop where
  kept : ∀ (resource : Bytes) (subs : Subs), r.subs[resource]? = some subs → WellKept subs
  count_eq : ∀ remote, r.countOf remote = number (ofRemote remote) r.subs
  count_le : ∀ remote, r.countOf remote ≤ maxObserversPerRemote

theorem counted_new : new.Counted where
  kept := by simp [new]
  count_eq := by simp [new, countOf, number]
  count_le := by simp [new, countOf, maxObserversPerRemote]

theorem countOf_insert (r : ObserverRegistry) (remote remote' : Bytes) (n : Int) :
    (r.remoteCount.insert remote n)[remote']?.getD 0 =
      if remote' = remote then n else r.countOf remote' := by
  by_cases h : remote' = remote
  · subst h
    simp
  · rw [getElem?_insert_of_ne (Ne.symm h), if_neg h, countOf]

theorem countOf_erase (r : ObserverRegistry) (remote remote' : Bytes) :
    (r.remoteCount.erase remote)[remote']?.getD 0 =
      if remote' = remote then 0 else r.countOf remote' := by
  by_cases h : remote' = remote
  · subst h
    simp
  · rw [getElem?_erase_of_ne (Ne.symm h), if_neg h, countOf]

theorem Counted.subsOf (h : r.Counted) (resource : Bytes) : WellKept (r.subsOf resource) := by
  unfold ObserverRegistry.subsOf
  cases hs : r.subs[resource]? with
  | none => exact ⟨by simp, by simp⟩
  | some subs => exact h.kept resource subs hs

theorem number_pos {P : Observer → Bool} (h : (r.subsOf resource)[key]? = some obs)
    (hP : P obs = true) : 0 < number P r.subs := by
  have hsplit := number_erase P r.subs resource
  have hpos : 0 < countSubs P (r.subsOf resource) := countSubs_pos h hP
  unfold ObserverRegistry.subsOf at hpos
  omega

theorem Counted.touch (h : r.Counted) (resource : Bytes) :
    { r with subs := r.subs.insert resource (r.subsOf resource) }.Counted where
  kept := forall_insert h.kept (h.subsOf resource)
  count_eq := by
    intro q
    rw [number_touch]
    exact h.count_eq q
  count_le := h.count_le

theorem WellKept.erase {subs : Subs} (h : WellKept subs) (old : Bytes) :
    WellKept (subs.erase old) :=
  h.mono fun _ _ hin => (getElem?_erase_eq_some.mp hin).2

/-- The relation replaced was the only one of its remote, so the new one is again. -/
theorem WellKept.replace {subs : Subs} {old : Bytes} {new : Observer} (h : WellKept subs)
    (hold : subs[old]? = some obs) (hobs : obs.remote = new.remote) (hremote : slash ∉ new.remote) :
    WellKept ((subs.erase old).insert (observerKey new.remote new.token) new) := by
  refine (h.erase old).insert hremote rfl fun key' obs' hin heq => ?_
  obtain ⟨hne, hin⟩ := getElem?_erase_eq_some.mp hin
  exact hne (h.single key' old obs' obs hin hold (heq.trans hobs.symm))

variable (h : r.Counted)
include h

/-- A replacement takes one off the remote's count and puts it back. -/
theorem Counted.countOf_replaced (hold : (r.subsOf resource)[key]? = some obs)
    (hobs : obs.remote = remote) (q : Bytes) :
    (r.remoteCount.insert remote ((if 0 < r.countOf remote
      then r.countOf remote - 1 else r.countOf remote) + 1))[q]?.getD 0 = r.countOf q := by
  have hpos := number_pos (P := ofRemote remote) hold (by simpa [ofRemote] using hobs)
  have heq := h.count_eq remote
  have hcount : (if 0 < r.countOf remote then r.countOf remote - 1 else r.countOf remote) + 1 =
      r.countOf remote := by
    omega
  rw [countOf_insert, hcount]
  split
  · rename_i hq
    rw [hq]
  · rfl

theorem Counted.replaced {old : Bytes} (new : Observer)
    (hkey : (r.subsOf resource)[observerKey new.remote new.token]? = none)
    (hold : (r.subsOf resource)[old]? = some obs) (hobs : obs.remote = new.remote)
    (hremote : slash ∉ new.remote) (fresh : Nat) :
    { r with
        subs := r.subs.insert resource (((r.subsOf resource).erase old).insert
          (observerKey new.remote new.token) new)
        remoteCount := r.remoteCount.insert new.remote
          ((if 0 < r.countOf new.remote then r.countOf new.remote - 1
            else r.countOf new.remote) + 1)
        fresh := fresh }.Counted where
  kept := forall_insert h.kept ((h.subsOf resource).replace hold hobs hremote)
  count_eq := by
    intro q
    have hnumber := number_replaced (ofRemote q) new hkey hold
    have hP : ofRemote q obs = ofRemote q new := by simp [ofRemote, hobs]
    rw [hP] at hnumber
    rw [Nat.add_right_cancel hnumber, ← h.count_eq q]
    exact h.countOf_replaced hold hobs q
  count_le := by
    intro q
    exact (h.countOf_replaced hold hobs q).trans_le (h.count_le q)

theorem Counted.added (new : Observer)
    (hkey : (r.subsOf resource)[observerKey new.remote new.token]? = none)
    (hnone : ∀ (key : Bytes) (obs : Observer), (r.subsOf resource)[key]? = some obs →
      obs.remote ≠ new.remote)
    (hremote : slash ∉ new.remote) (hlt : r.countOf new.remote < maxObserversPerRemote)
    (total : Int) (fresh : Nat) :
    { r with
        subs := r.subs.insert resource ((r.subsOf resource).insert
          (observerKey new.remote new.token) new)
        remoteCount := r.remoteCount.insert new.remote (r.countOf new.remote + 1)
        total := total
        fresh := fresh }.Counted where
  kept := forall_insert h.kept ((h.subsOf resource).insert hremote rfl hnone)
  count_eq := by
    intro q
    show (r.remoteCount.insert new.remote (r.countOf new.remote + 1))[q]?.getD 0 = _
    rw [number_added _ hkey, countOf_insert, Nat.cast_add, ← h.count_eq q]
    by_cases hq : q = new.remote
    · subst hq
      simp [ofRemote]
    · simp [ofRemote, hq, Ne.symm hq]
  count_le := by
    intro q
    show (r.remoteCount.insert new.remote (r.countOf new.remote + 1))[q]?.getD 0 ≤ _
    rw [countOf_insert]
    split
    · omega
    · exact h.count_le q

theorem Counted.register {walk : WalkOrder (Bytes × Observer)}
    (hremote : slash ∉ remote) : (r.register walk resource remote token).1.Counted := by
  generalize hq : r.register walk resource remote token = q
  cases register_cases hq with
  | found | refused => exact h.touch resource
  | replaced hkey hold hobs =>
    exact h.replaced ⟨r.fresh, token, remote, resource⟩ hkey hold hobs hremote _
  | added hkey hnone hfull =>
    have hlt : r.countOf remote < maxObserversPerRemote :=
      not_le.mp fun hle => hfull (.inl hle)
    exact h.added ⟨r.fresh, token, remote, resource⟩ hkey hnone hremote hlt _ _

theorem Counted.removeLocked (hremote : slash ∉ remote) :
    (r.removeLocked resource remote token).Counted := by
  rcases removeLocked_cases r resource remote token with heq | ⟨subs, obs, hs, hobs, heq⟩
  · rw [heq]
    exact h
  -- the relation under the key belongs to the caller's remote
  obtain ⟨hkey, hplain⟩ := (h.kept resource subs hs).keyed _ _ hobs
  have hown : remote = obs.remote := (observerKey_inj hremote hplain hkey).1
  have hpos : 0 < number (ofRemote remote) r.subs := by
    have hsubs : (r.subsOf resource)[observerKey remote token]? = some obs := by
      unfold ObserverRegistry.subsOf
      rw [hs]
      exact hobs
    exact number_pos hsubs (by simp [ofRemote, hown])
  have hcount := h.count_eq remote
  have hafter : ∀ q, (r.removeLocked resource remote token).countOf q =
      if q = remote then r.countOf remote - 1 else r.countOf q := by
    intro q
    rw [heq, ObserverRegistry.countOf]
    rw [if_pos (by omega)]
    split
    · rename_i hone
      rw [countOf_erase, hone]
    · exact countOf_insert r remote q _
  have hnumber : ∀ q, number (ofRemote q) (r.removeLocked resource remote token).subs +
      (ofRemote q obs).toNat = number (ofRemote q) r.subs := by
    intro q
    rw [heq]
    exact number_removed (ofRemote q) hs hobs
  refine ⟨?_, ?_, ?_⟩
  · rw [heq]
    intro resource' s hs'
    rcases getElem?_store hs' with ⟨-, rfl, -⟩ | ⟨-, hold⟩
    · exact (h.kept resource subs hs).erase _
    · exact h.kept resource' s hold
  · intro q
    have hq := hnumber q
    rw [hafter q]
    by_cases hqr : q = remote
    · subst hqr
      rw [if_pos rfl]
      have hP : ofRemote q obs = true := by simp [ofRemote, hown]
      rw [hP, Bool.toNat_true] at hq
      omega
    have hP : ofRemote q obs = false := by simp [ofRemote, ← hown, Ne.symm hqr]
    rw [hP, Bool.toNat_false] at hq
    rw [if_neg hqr, h.count_eq q]
    omega
  · intro q
    have hle := h.count_le q
    rw [hafter q]
    split
    · rename_i hqr
      rw [hqr] at hle
      omega
    · exact hle

theorem Counted.removeBySession : (r.removeBySession remote).Counted := by
  have hcount : ∀ q, (r.removeBySession remote).countOf q =
      if q = remote then 0 else r.countOf q := by
    intro q
    rw [removeBySession_eq]
    rw [remoteCount_sweep]
    exact countOf_erase r remote q
  refine ⟨?_, ?_, ?_⟩
  · intro resource s hs
    obtain ⟨subs, hsubs, -, hin⟩ := before_removeBySession hs
    exact (h.kept resource subs hsubs).mono fun key obs ho => (hin key obs ho).1
  · intro q
    rw [hcount q, number_removeBySession]
    split
    · rename_i hq
      subst hq
      have hzero : number (fun obs => decide (obs.remote ≠ q) && ofRemote q obs) r.subs = 0 := by
        refine Nat.le_zero.mp ((weigh_mono (g := fun _ _ => 0) fun _ s _ => ?_).trans_eq ?_)
        · refine (countSubs_eq_zero fun _ o _ => ?_).le
          simp [ofRemote]
        · simp [weigh]
      rw [hzero]
      rfl
    · rename_i hq
      rw [h.count_eq q]
      refine congrArg Nat.cast (weigh_congr fun _ s _ => weigh_congr fun _ o _ => ?_)
      by_cases ho : o.remote = q
      · simp [ofRemote, ho, hq]
      · simp [ofRemote, ho]
  · intro q
    rw [hcount q]
    split
    · decide
    · exact h.count_le q

theorem Counted.apply {op : RegistryOp} (hok : PlainRemote r op) : (r.apply op).Counted := by
  cases op with
  | register walk resource remote token => exact h.register hok
  | remove resource remote token => exact h.removeLocked hok
  | removeByToken remote token =>
    exact removeByToken_induction (fun _ _ hr => hr.removeLocked hok) h
  | removeBySession remote => exact h.removeBySession

end ObserverRegistry

theorem counted_of_reaches {r : ObserverRegistry} (h : registry.Reaches PlainRemote r) :
    r.Counted := by
  refine h.inv (by rintro _ rfl; exact ObserverRegistry.counted_new) ?_
  intro s op t hs hok hstep
  cases hstep
  exact hs.apply hok

/-- What the counters and the maps of a registry say about its relations. -/
structure CountsRelations (r : ObserverRegistry) : Prop where
  total_eq : r.total = r.relations.length
  countOf_eq : ∀ remote, r.countOf remote =
    r.relations.countP fun obs => obs.remote = remote
  hasObservers_iff : ∀ remote,
    r.hasObservers remote = true ↔ ∃ obs ∈ r.relations, obs.remote = remote
  one_each : ∀ (resource : Bytes) (subs : Subs), r.subs[resource]? = some subs →
    ∀ (key key' : Bytes) (obs obs' : Observer), subs[key]? = some obs →
      subs[key']? = some obs' → obs.remote = obs'.remote → key = key' ∧ obs = obs'
  own_key : ∀ (resource : Bytes) (subs : Subs), r.subs[resource]? = some subs →
    ∀ (key : Bytes) (obs : Observer), subs[key]? = some obs →
      key = observerKey obs.remote obs.token
  total_le : r.total ≤ 4096
  countOf_le : ∀ remote, r.countOf remote ≤ 64

/-- For every sequence of operations with remotes that contain no `/`, the
counters agree with the stored relations and stay within the caps. -/
theorem registry_counts (r : ObserverRegistry) (h : registry.Reaches PlainRemote r) :
    CountsRelations r := by
  have htotal := totalled_of_reaches h
  have hcounted := counted_of_reaches h
  have hcount : ∀ remote, r.countOf remote =
      r.relations.countP fun obs => obs.remote = remote := by
    intro remote
    rw [hcounted.count_eq remote, ← countP_relations]
    rfl
  refine ⟨?_, hcount, ?_, ?_, ?_, htotal.total_le, hcounted.count_le⟩
  · rw [htotal.total_eq, length_relations]
  · intro remote
    unfold ObserverRegistry.hasObservers
    rw [decide_eq_true_iff, hcount remote, Int.natCast_pos]
    simp
  · intro resource subs hs key key' obs obs' hobs hobs' hremote
    obtain rfl := (hcounted.kept resource subs hs).single key key' obs obs' hobs hobs' hremote
    exact ⟨rfl, Option.some.inj (hobs.symm.trans hobs')⟩
  · intro resource subs hs key obs hobs
    exact ((hcounted.kept resource subs hs).keyed key obs hobs).1

/-- Two resources of one remote, the second under a new token, then without it. -/
def registerTwice : List RegistryOp :=
  [registerNth 0, registerNth 1, .register .id [1] [0x61] [2], .remove [1] [0x61] [2]]

theorem registry_counts_registerTwice :
    ∃ r, registry.Reaches PlainRemote r ∧ r.total = 1 ∧ CountsRelations r := by
  have hrun : (registry.runIf PlainRemote .new registerTwice).map (·.total) = some 1 := by
    decide +kernel
  obtain ⟨r, hreach, htotal⟩ := Machine.exists_reaches hrun rfl
  exact ⟨r, hreach, htotal, registry_counts r hreach⟩

end SharkSocket.Coap
