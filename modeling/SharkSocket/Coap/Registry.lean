import SharkSocket.Coap.Observe
import SharkSocket.Lib.Machine
import SharkSocket.Lib.Weigh

/-!
# Runs of the observer registry

`registry` is the machine of the registry's operations.  An operation changes
the relations of one resource at a time, so what it does to a count over all
relations (`number`) is what it does to the count over one inner map
(`countSubs`).  `register_cases` and `removeLocked_cases` say what the two
operations do to the maps and the counters.
-/

namespace SharkSocket.Coap

open Std (ExtTreeMap)
open Lib

inductive RegistryOp
  | register (walk : WalkOrder (Bytes × Observer)) (resource remote token : Bytes)
  | remove (resource remote token : Bytes)
  | removeByToken (remote token : Bytes)
  | removeBySession (remote : Bytes)

namespace ObserverRegistry

def apply (r : ObserverRegistry) : RegistryOp → ObserverRegistry
  | .register walk resource remote token => (r.register walk resource remote token).1
  | .remove resource remote token => r.remove resource remote token
  | .removeByToken remote token => r.removeByToken remote token
  | .removeBySession remote => r.removeBySession remote

/-- The stored relations. -/
def relations (r : ObserverRegistry) : List Observer :=
  r.subs.toList.flatMap fun e => e.2.toList.map Prod.snd

end ObserverRegistry

def registry : Machine ObserverRegistry RegistryOp where
  init r := r = .new
  step r op := some (r.apply op)

/-! ### Counting relations -/

def countSubs (P : Observer → Bool) (subs : Subs) : Nat :=
  weigh (fun _ obs => if P obs then 1 else 0) subs

def number (P : Observer → Bool) (subs : ExtTreeMap Bytes Subs) : Nat :=
  weigh (fun _ s => countSubs P s) subs

theorem countP_values (P : Observer → Bool) (subs : Subs) :
    (subs.toList.map Prod.snd).countP P = countSubs P subs := by
  unfold countSubs weigh
  induction subs.toList with
  | nil => rfl
  | cons x l ih => rw [List.map_cons, List.countP_cons, ih, List.map_cons, List.sum_cons, add_comm]

theorem countP_relations (P : Observer → Bool) (r : ObserverRegistry) :
    r.relations.countP P = number P r.subs := by
  unfold ObserverRegistry.relations number weigh
  rw [List.countP_flatMap]
  congr 1
  exact List.map_congr_left fun e _ => countP_values P e.2

theorem length_relations (r : ObserverRegistry) :
    r.relations.length = number (fun _ => true) r.subs := by
  rw [← countP_relations, List.countP_true]

section CountSubs

variable {P : Observer → Bool} {subs : Subs} {key : Bytes} {obs : Observer}

theorem countSubs_insert (h : subs[key]? = none) :
    countSubs P (subs.insert key obs) = countSubs P subs + (P obs).toNat := by
  unfold countSubs
  rw [weigh_insert_of_none h]
  cases P obs <;> rfl

theorem countSubs_erase (h : subs[key]? = some obs) :
    countSubs P (subs.erase key) + (P obs).toNat = countSubs P subs := by
  unfold countSubs
  rw [weigh_of_some h, add_comm]
  cases P obs <;> rfl

theorem countSubs_filter (keep : Observer → Bool) :
    countSubs P (subs.filter fun _ obs => keep obs) =
      countSubs (fun obs => keep obs && P obs) subs := by
  unfold countSubs
  rw [weigh_filter]
  refine weigh_congr fun _ o _ => ?_
  cases hk : keep o <;> cases hp : P o <;> simp [hk, hp]

theorem countSubs_true (subs : Subs) : countSubs (fun _ => true) subs = subs.size :=
  weigh_one subs

theorem countSubs_of_size_eq_zero (h : subs.size = 0) : countSubs P subs = 0 := by
  have hle : countSubs P subs ≤ subs.size := by
    rw [← weigh_one]
    refine weigh_mono fun _ o _ => ?_
    cases P o <;> simp
  omega

theorem countSubs_pos (h : subs[key]? = some obs) (hP : P obs = true) : 0 < countSubs P subs := by
  have hle : (if P obs then 1 else 0) ≤ countSubs P subs :=
    weigh_le_of_some (f := fun _ o => if P o then 1 else 0) h
  rwa [hP] at hle

theorem countSubs_eq_zero (h : ∀ (key : Bytes) (obs : Observer), subs[key]? = some obs →
    P obs = false) : countSubs P subs = 0 := by
  have hle : countSubs P subs ≤ weigh (fun _ _ => 0) subs := by
    refine weigh_mono fun k o ho => ?_
    rw [h k o ho]
    rfl
  simpa [weigh] using hle

end CountSubs

section Number

variable (P : Observer → Bool) (subs : ExtTreeMap Bytes Subs) (resource : Bytes)

theorem number_erase :
    number P (subs.erase resource) + countSubs P (subs[resource]?.getD ∅) = number P subs := by
  unfold number
  cases h : subs[resource]? with
  | none =>
    rw [erase_of_none h]
    simp [countSubs]
  | some s =>
    rw [weigh_of_some h, add_comm]
    rfl

theorem number_insert (s : Subs) :
    number P (subs.insert resource s) + countSubs P (subs[resource]?.getD ∅) =
      number P subs + countSubs P s := by
  rw [← number_erase P subs resource]
  unfold number
  rw [weigh_insert]
  omega

/-- An inner map that has become empty is dropped. -/
def store (s : Subs) : ExtTreeMap Bytes Subs :=
  if s.size = 0 then subs.erase resource else subs.insert resource s

theorem number_store (s : Subs) :
    number P (store subs resource s) + countSubs P (subs[resource]?.getD ∅) =
      number P subs + countSubs P s := by
  unfold store
  split
  · rename_i hzero
    rw [countSubs_of_size_eq_zero hzero]
    exact number_erase P subs resource
  · exact number_insert P subs resource s

variable {subs resource}

theorem getElem?_store {s s' : Subs} {resource' : Bytes}
    (h : (store subs resource s)[resource']? = some s') :
    (resource' = resource ∧ s' = s ∧ s.size ≠ 0) ∨
      (resource' ≠ resource ∧ subs[resource']? = some s') := by
  unfold store at h
  by_cases hr : resource' = resource
  · subst hr
    split at h
    · rw [ExtTreeMap.getElem?_erase_self] at h
      cases h
    rw [ExtTreeMap.getElem?_insert_self] at h
    cases h
    exact .inl ⟨rfl, rfl, ‹_›⟩
  refine .inr ⟨hr, ?_⟩
  split at h
  · rwa [getElem?_erase_of_ne (Ne.symm hr)] at h
  · rwa [getElem?_insert_of_ne (Ne.symm hr)] at h

end Number

/-! ### What the operations do -/

namespace ObserverRegistry

variable {r : ObserverRegistry} {resource remote token : Bytes}

variable {walk : WalkOrder (Bytes × Observer)} {obs : Observer} {resource' key : Bytes}

theorem previous_some {subs : Subs} {old : Bytes} (h : previous walk subs remote = some old) :
    ∃ obs, subs[old]? = some obs ∧ obs.remote = remote := by
  obtain ⟨e, hfind, rfl⟩ := Option.map_eq_some_iff.mp h
  exact ⟨e.2, WalkOrder.mem_entries.mp (List.mem_of_find?_eq_some hfind),
    by simpa using List.find?_some hfind⟩

theorem previous_none {subs : Subs} (h : previous walk subs remote = none) (key : Bytes)
    (obs : Observer) (hkey : subs[key]? = some obs) : obs.remote ≠ remote := by
  have hfind := List.find?_eq_none.mp (Option.map_eq_none_iff.mp h) (key, obs)
    (WalkOrder.mem_entries.mpr hkey)
  simpa using hfind

/-- The caps refuse a new relation. -/
def Full (r : ObserverRegistry) (remote : Bytes) : Prop :=
  maxObserversPerRemote ≤ r.countOf remote ∨ maxObserversTotal ≤ r.total

instance (r : ObserverRegistry) (remote : Bytes) : Decidable (r.Full remote) :=
  inferInstanceAs (Decidable (_ ∨ _))

variable (r resource remote token) in
/-- `Register` finds the relation, replaces one of the same remote, refuses, or
adds a relation. -/
inductive Registered : ObserverRegistry × Option Observer → Prop
  | found {obs : Observer} : (r.subsOf resource)[observerKey remote token]? = some obs → Registered
        ({ r with subs := r.subs.insert resource (r.subsOf resource) }, some obs)
  | replaced {old : Bytes} {obs : Observer} :
      (r.subsOf resource)[observerKey remote token]? = none →
      (r.subsOf resource)[old]? = some obs → obs.remote = remote → Registered ({ r with
            subs := r.subs.insert resource (((r.subsOf resource).erase old).insert
              (observerKey remote token) ⟨r.fresh, token, remote, resource⟩)
            remoteCount := r.remoteCount.insert remote
              ((if 0 < r.countOf remote then r.countOf remote - 1 else r.countOf remote) + 1)
            fresh := r.fresh + 1 }, some ⟨r.fresh, token, remote, resource⟩)
  | refused : (∀ (key : Bytes) (obs : Observer), (r.subsOf resource)[key]? = some obs →
        obs.remote ≠ remote) → r.Full remote → Registered
        ({ r with subs := r.subs.insert resource (r.subsOf resource) }, none)
  | added : (r.subsOf resource)[observerKey remote token]? = none →
      (∀ (key : Bytes) (obs : Observer), (r.subsOf resource)[key]? = some obs →
        obs.remote ≠ remote) → ¬ r.Full remote → Registered ({ r with
            subs := r.subs.insert resource ((r.subsOf resource).insert
              (observerKey remote token) ⟨r.fresh, token, remote, resource⟩)
            remoteCount := r.remoteCount.insert remote (r.countOf remote + 1)
            total := r.total + 1
            fresh := r.fresh + 1 }, some ⟨r.fresh, token, remote, resource⟩)

theorem register_cases {q : ObserverRegistry × Option Observer}
    (hq : r.register walk resource remote token = q) : Registered r resource remote token q := by
  subst hq
  unfold register
  dsimp only
  split
  · rename_i obs hkey
    exact .found hkey
  rename_i hkey
  split
  · rename_i old hold
    obtain ⟨obs, hobs, hremote⟩ := previous_some hold
    rw [insert_insert]
    exact .replaced hkey hobs hremote
  rename_i hnone
  split
  · rename_i hfull
    exact .refused (previous_none hnone) hfull
  rename_i hfull
  rw [insert_insert]
  exact .added hkey (previous_none hnone) hfull

/-- `removeLocked` takes out one relation or does nothing. -/
theorem removeLocked_cases (r : ObserverRegistry) (resource remote token : Bytes) :
    r.removeLocked resource remote token = r ∨
    ∃ subs obs, r.subs[resource]? = some subs ∧ subs[observerKey remote token]? = some obs ∧
      r.removeLocked resource remote token = { r with
        subs := store r.subs resource (subs.erase (observerKey remote token))
        remoteCount :=
          if 0 < r.countOf remote then
            if r.countOf remote - 1 = 0 then r.remoteCount.erase remote
            else r.remoteCount.insert remote (r.countOf remote - 1)
          else r.remoteCount
        total := r.total - 1 } := by
  unfold removeLocked
  dsimp only
  split
  · exact .inl rfl
  rename_i subs hsubs
  split
  · rename_i hmem
    obtain ⟨obs, hobs⟩ := mem_iff_getElem?.mp hmem
    exact .inr ⟨subs, obs, hsubs, hobs, rfl⟩
  · exact .inl rfl

theorem removeByToken_induction {I : ObserverRegistry → Prop}
    (hstep : ∀ r resource, I r → I (r.removeLocked resource remote token)) (h : I r) :
    I (r.removeByToken remote token) := by
  unfold removeByToken
  generalize r.subs.keys = l
  induction l generalizing r with
  | nil => exact h
  | cons resource l ih =>
    rw [List.foldl_cons]
    apply ih
    split
    · exact hstep r resource h
    · exact h

theorem getElem?_subsOf {key : Bytes} : (r.subsOf resource)[key]? = some obs ↔
    ∃ subs, r.subs[resource]? = some subs ∧ subs[key]? = some obs := by
  unfold subsOf
  cases hs : r.subs[resource]? with
  | none | some subs => simp

/-- What is in the registry after `Register` was there before, or is the relation
registered. -/
theorem of_getElem?_register
    (h : ((r.register walk resource remote token).1.subsOf resource')[key]? = some obs) :
    (r.subsOf resource')[key]? = some obs ∨
      (key = observerKey remote token ∧ obs.remote = remote ∧ obs.token = token) := by
  -- the inner map is replaced by one that holds only old relations and the new one
  have hput : ∀ (s : Subs), (∀ (k : Bytes) (o : Observer), s[k]? = some o →
        (r.subsOf resource)[k]? = some o ∨
          (k = observerKey remote token ∧ o.remote = remote ∧ o.token = token)) →
      ∀ subs, (r.subs.insert resource s)[resource']? = some subs → subs[key]? = some obs →
        (r.subsOf resource')[key]? = some obs ∨
          (key = observerKey remote token ∧ obs.remote = remote ∧ obs.token = token) := by
    intro s hs subs hsubs hobs
    rcases getElem?_insert_eq_some.mp hsubs with ⟨rfl, rfl⟩ | ⟨-, hold⟩
    · exact hs key obs hobs
    · exact .inl (getElem?_subsOf.mpr ⟨subs, hold, hobs⟩)
  have hnew : ∀ (s : Subs) (ptr : Nat), (∀ (k : Bytes) (o : Observer), s[k]? = some o →
        (r.subsOf resource)[k]? = some o) → ∀ (k : Bytes) (o : Observer),
      (s.insert (observerKey remote token) ⟨ptr, token, remote, resource⟩)[k]? = some o →
        (r.subsOf resource)[k]? = some o ∨
          (k = observerKey remote token ∧ o.remote = remote ∧ o.token = token) := by
    intro s ptr hs k o ho
    rcases getElem?_insert_eq_some.mp ho with ⟨rfl, rfl⟩ | ⟨-, ho⟩
    · exact .inr ⟨rfl, rfl, rfl⟩
    · exact .inl (hs k o ho)
  obtain ⟨subs, hsubs, hobs⟩ := getElem?_subsOf.mp h
  generalize hq : r.register walk resource remote token = q at hsubs
  cases register_cases hq with
  | found | refused => exact hput _ (fun _ _ ho => .inl ho) subs hsubs hobs
  | replaced =>
    exact hput _ (hnew _ _ fun k o ho => (getElem?_erase_eq_some.mp ho).2) subs hsubs hobs
  | added => exact hput _ (hnew _ _ fun _ _ ho => ho) subs hsubs hobs

/-- What is left after `removeLocked` was there before, and is not the relation it names. -/
theorem of_getElem?_removeLocked
    (h : ((r.removeLocked resource remote token).subsOf resource')[key]? = some obs) :
    (r.subsOf resource')[key]? = some obs ∧
      ¬ (resource' = resource ∧ key = observerKey remote token) := by
  unfold removeLocked at h
  dsimp only at h
  split at h
  · rename_i hnone
    refine ⟨h, ?_⟩
    rintro ⟨rfl, rfl⟩
    obtain ⟨subs, hs, -⟩ := getElem?_subsOf.mp h
    rw [hnone] at hs
    cases hs
  rename_i subs hsubs
  split at h
  · obtain ⟨subs', hs', hobs⟩ := getElem?_subsOf.mp h
    rcases getElem?_store hs' with ⟨rfl, rfl, -⟩ | ⟨hne, hs⟩
    · obtain ⟨hkey, hobs⟩ := getElem?_erase_eq_some.mp hobs
      exact ⟨getElem?_subsOf.mpr ⟨subs, hsubs, hobs⟩, fun heq => hkey heq.2⟩
    · exact ⟨getElem?_subsOf.mpr ⟨subs', hs, hobs⟩, fun heq => hne heq.1⟩
  rename_i hmem
  refine ⟨h, ?_⟩
  rintro ⟨rfl, rfl⟩
  obtain ⟨subs', hs, hobs⟩ := getElem?_subsOf.mp h
  rw [hsubs] at hs
  cases hs
  exact hmem (mem_iff_getElem?.mpr ⟨obs, hobs⟩)

theorem size_ne_zero {subs : Subs} {key : Bytes} (h : subs[key]? = some obs) : subs.size ≠ 0 := by
  rw [← countSubs_true]
  exact (countSubs_pos h rfl).ne'

/-- Every other relation is left in place. -/
theorem getElem?_removeLocked_of_ne (h : (r.subsOf resource')[key]? = some obs)
    (hne : ¬ (resource' = resource ∧ key = observerKey remote token)) :
    ((r.removeLocked resource remote token).subsOf resource')[key]? = some obs := by
  rcases removeLocked_cases r resource remote token with heq | ⟨subs, gone, hs, -, heq⟩
  · rw [heq]
    exact h
  rw [heq]
  obtain ⟨subs', hs', hobs⟩ := getElem?_subsOf.mp h
  refine getElem?_subsOf.mpr ?_
  show ∃ s, (store r.subs resource (subs.erase (observerKey remote token)))[resource']? =
    some s ∧ s[key]? = some obs
  unfold store
  by_cases hr : resource' = resource
  · subst hr
    obtain rfl : subs = subs' := Option.some.inj (hs.symm.trans hs')
    have hkept : (subs.erase (observerKey remote token))[key]? = some obs :=
      getElem?_erase_eq_some.mpr ⟨fun heq => hne ⟨rfl, heq⟩, hobs⟩
    rw [if_neg (size_ne_zero hkept)]
    exact ⟨_, ExtTreeMap.getElem?_insert_self, hkept⟩
  refine ⟨subs', ?_, hobs⟩
  split
  · rwa [getElem?_erase_of_ne (Ne.symm hr)]
  · rwa [getElem?_insert_of_ne (Ne.symm hr)]

/-- `RemoveByToken` takes out the relations of the token on every resource. -/
theorem of_getElem?_removeByToken {key : Bytes}
    (h : ((r.removeByToken remote token).subsOf resource)[key]? = some obs) :
    (r.subsOf resource)[key]? = some obs ∧ key ≠ observerKey remote token := by
  have hfold : ∀ (l : List Bytes) (r : ObserverRegistry),
      ((l.foldl (fun r resource =>
        if observerKey remote token ∈ r.subsOf resource then r.removeLocked resource remote token
        else r) r).subsOf resource)[key]? = some obs →
      (r.subsOf resource)[key]? = some obs ∧ (resource ∈ l → key ≠ observerKey remote token) := by
    intro l
    induction l with
    | nil => exact fun r h => ⟨h, nofun⟩
    | cons resource' l ih =>
      intro r h
      obtain ⟨hrest, hne⟩ := ih _ h
      dsimp only at hrest
      split at hrest
      · obtain ⟨hbefore, hnot⟩ := of_getElem?_removeLocked hrest
        refine ⟨hbefore, ?_⟩
        intro hmem
        rcases List.mem_cons.mp hmem with rfl | hmem
        · exact fun hk => hnot ⟨rfl, hk⟩
        · exact hne hmem
      rename_i habsent
      refine ⟨hrest, ?_⟩
      intro hmem
      rcases List.mem_cons.mp hmem with rfl | hmem
      · rintro rfl
        exact habsent (mem_iff_getElem?.mpr ⟨obs, hrest⟩)
      · exact hne hmem
  obtain ⟨hbefore, hne⟩ := hfold _ r h
  obtain ⟨subs, hs, -⟩ := getElem?_subsOf.mp hbefore
  exact ⟨hbefore, hne (ExtTreeMap.mem_keys.mpr (mem_iff_getElem?.mpr ⟨subs, hs⟩))⟩

theorem getElem?_removeByToken {key : Bytes} :
    ((r.removeByToken remote token).subsOf resource)[key]? = some obs ↔
      (r.subsOf resource)[key]? = some obs ∧ key ≠ observerKey remote token := by
  refine ⟨of_getElem?_removeByToken, ?_⟩
  rintro ⟨hobs, hne⟩
  refine removeByToken_induction
    (I := fun r' : ObserverRegistry => (r'.subsOf resource)[key]? = some obs) ?_ hobs
  intro r' resource' h
  exact getElem?_removeLocked_of_ne h fun heq => hne heq.2

variable (remote : Bytes) (l : List (Bytes × Subs)) (r : ObserverRegistry)

/-- What `RemoveBySession` leaves of an inner map. -/
def keptOf (subs : Subs) : Subs := subs.filter fun _ obs => obs.remote ≠ remote

def keep (subs : Subs) : Option Subs :=
  if (keptOf remote subs).size = 0 then none else some (keptOf remote subs)

/-- One inner map of the sweep. -/
def sweepSubs (e : Bytes × Subs) : ObserverRegistry :=
  { r with
    subs := store r.subs e.1 (keptOf remote e.2)
    total := r.total - (e.2.size - (keptOf remote e.2).size) }

theorem removeBySession_eq (remote : Bytes) :
    r.removeBySession remote =
      { r.subs.toList.foldl (sweepSubs remote) r with
        remoteCount := (r.subs.toList.foldl (sweepSubs remote) r).remoteCount.erase remote } := rfl

theorem remoteCount_sweep : (l.foldl (sweepSubs remote) r).remoteCount = r.remoteCount := by
  induction l generalizing r with
  | nil => rfl
  | cons e l ih => rw [List.foldl_cons, ih, sweepSubs]

theorem total_sweep :
    (l.foldl (sweepSubs remote) r).total + (l.map fun e => e.2.size).sum =
      r.total + (l.map fun e => (keptOf remote e.2).size).sum := by
  induction l generalizing r with
  | nil => rfl
  | cons e l ih =>
    have hl := ih (sweepSubs remote r e)
    have he : (sweepSubs remote r e).total = r.total - (e.2.size - (keptOf remote e.2).size) := rfl
    rw [List.foldl_cons, List.map_cons, List.map_cons, List.sum_cons, List.sum_cons]
    omega

theorem subs_sweepSubs (e : Bytes × Subs) (resource : Bytes) :
    (sweepSubs remote r e).subs[resource]? =
      if resource = e.1 then keep remote e.2 else r.subs[resource]? := by
  unfold sweepSubs store keep
  by_cases hr : resource = e.1
  · subst hr
    split <;> simp
  · split <;> simp [getElem?_erase_of_ne (Ne.symm hr), getElem?_insert_of_ne (Ne.symm hr)]

/-- The sweep visits each resource once. -/
theorem subs_sweep (hl : (l.map Prod.fst).Nodup) (resource : Bytes) : (resource ∉ l.map Prod.fst →
      (l.foldl (sweepSubs remote) r).subs[resource]? = r.subs[resource]?) ∧
    ∀ subs, (resource, subs) ∈ l →
      (l.foldl (sweepSubs remote) r).subs[resource]? = keep remote subs := by
  induction l generalizing r with
  | nil => simp
  | cons e l ih =>
    rw [List.map_cons, List.nodup_cons] at hl
    obtain ⟨hother, hthis⟩ := ih (sweepSubs remote r e) hl.2
    rw [List.foldl_cons]
    constructor
    · intro hnot
      rw [List.map_cons, List.mem_cons, not_or] at hnot
      rw [hother hnot.2, subs_sweepSubs, if_neg hnot.1]
    · intro subs hmem
      rcases List.mem_cons.mp hmem with rfl | hmem
      · rw [hother hl.1, subs_sweepSubs, if_pos rfl]
      · exact hthis subs hmem

variable {remote r}

theorem subs_removeBySession (r : ObserverRegistry) (remote : Bytes) :
    (r.removeBySession remote).subs = r.subs.filterMap fun _ subs => keep remote subs := by
  have hkeys : (r.subs.toList.map Prod.fst).Nodup := by
    rw [ExtTreeMap.map_fst_toList_eq_keys]
    exact ExtTreeMap.nodup_keys
  refine ExtTreeMap.ext_getElem? fun resource => ?_
  rw [ExtTreeMap.getElem?_filterMap']
  obtain ⟨hother, hthis⟩ := subs_sweep remote r.subs.toList r hkeys resource
  show (r.subs.toList.foldl (sweepSubs remote) r).subs[resource]? = _
  cases hs : r.subs[resource]? with
  | none =>
    rw [hother ?_, hs]
    · rfl
    · intro hmem
      obtain ⟨e, he, rfl⟩ := List.mem_map.mp hmem
      rw [ExtTreeMap.mem_toList_iff_getElem?_eq_some.mp he] at hs
      cases hs
  | some subs =>
    rw [hthis subs (ExtTreeMap.mem_toList_iff_getElem?_eq_some.mpr hs)]
    rfl

/-- What is left after `RemoveBySession` was there before it, and is of another remote. -/
theorem before_removeBySession {s : Subs} (h : (r.removeBySession remote).subs[resource]? = some s) :
    ∃ subs, r.subs[resource]? = some subs ∧ s.size ≠ 0 ∧
      ∀ (key : Bytes) (obs : Observer), s[key]? = some obs →
        subs[key]? = some obs ∧ obs.remote ≠ remote := by
  rw [subs_removeBySession, ExtTreeMap.getElem?_filterMap'] at h
  obtain ⟨subs, hsubs, hkeep⟩ := Option.bind_eq_some_iff.mp h
  unfold keep at hkeep
  split at hkeep
  · cases hkeep
  rename_i hsize
  cases hkeep
  refine ⟨subs, hsubs, hsize, ?_⟩
  intro key obs hin
  rw [keptOf, ExtTreeMap.getElem?_filter', Option.filter_eq_some_iff] at hin
  exact ⟨hin.1, by simpa using hin.2⟩

theorem of_getElem?_removeBySession {key : Bytes}
    (h : ((r.removeBySession remote).subsOf resource)[key]? = some obs) :
    (r.subsOf resource)[key]? = some obs ∧ obs.remote ≠ remote := by
  obtain ⟨s, hs, hobs⟩ := getElem?_subsOf.mp h
  obtain ⟨subs, hsubs, -, hin⟩ := before_removeBySession hs
  obtain ⟨hbefore, hne⟩ := hin key obs hobs
  exact ⟨getElem?_subsOf.mpr ⟨subs, hsubs, hbefore⟩, hne⟩

theorem countSubs_keptOf (P : Observer → Bool) (remote : Bytes) (subs : Subs) :
    countSubs P (keptOf remote subs) =
      countSubs (fun obs => decide (obs.remote ≠ remote) && P obs) subs :=
  countSubs_filter _

theorem number_removeBySession (P : Observer → Bool) (r : ObserverRegistry) (remote : Bytes) :
    number P (r.removeBySession remote).subs =
      number (fun obs => decide (obs.remote ≠ remote) && P obs) r.subs := by
  unfold number
  rw [subs_removeBySession, weigh_filterMap]
  refine weigh_congr fun _ subs _ => ?_
  rw [← countSubs_keptOf]
  unfold keep
  split
  · rename_i hzero
    rw [countSubs_of_size_eq_zero hzero]
    rfl
  · rfl

theorem total_removeBySession (r : ObserverRegistry) (remote : Bytes) :
    (r.removeBySession remote).total + number (fun _ => true) r.subs =
      r.total + number (fun _ => true) (r.removeBySession remote).subs := by
  have hsweep := total_sweep remote r.subs.toList r
  have hall : (r.subs.toList.map fun e => e.2.size).sum = number (fun _ => true) r.subs := by
    unfold number weigh
    simp only [countSubs_true]
  have hkept : (r.subs.toList.map fun e => (keptOf remote e.2).size).sum =
      number (fun _ => true) (r.removeBySession remote).subs := by
    rw [number_removeBySession]
    refine congrArg List.sum (List.map_congr_left fun e _ => ?_)
    exact (countSubs_true _).symm.trans (countSubs_keptOf _ remote e.2)
  rw [hall, hkept] at hsweep
  exact hsweep

end ObserverRegistry

end SharkSocket.Coap
