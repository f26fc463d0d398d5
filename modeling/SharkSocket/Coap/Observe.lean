import SharkSocket.Coap.Message
import SharkSocket.Lib.Walk

/-!
# `coap/observe.go`: the observer registry

Relations are kept per resource, under the key made of the remote and the
token, with a count per remote and a total.  A Go string is its bytes here: a
resource is the payload of a GET, and a key holds the raw token.

An observer is shared by pointer: a snapshot taken by `Notify` and the relation
in the registry count one sequence.  `ptr` is that pointer and `seqs` the memory
it points to, so that a relation that was replaced keeps its own numbers.
-/

namespace SharkSocket.Coap

open Std (ExtTreeMap)
open Lib

def maxObserversPerRemote : Int := 64
def maxObserversTotal : Int := 4096

structure Observer where
  ptr : Nat
  token : Bytes
  remote : Bytes
  resource : Bytes
  deriving DecidableEq, Repr

def observerKey (remote token : Bytes) : Bytes := remote ++ [0x2f] ++ token

abbrev Subs := ExtTreeMap Bytes Observer

structure ObserverRegistry where
  subs : ExtTreeMap Bytes Subs
  remoteCount : ExtTreeMap Bytes Int
  total : Int
  seqs : ExtTreeMap Nat UInt32
  fresh : Nat

namespace ObserverRegistry

variable (r : ObserverRegistry)

def new : ObserverRegistry := ⟨∅, ∅, 0, ∅, 0⟩

def subsOf (resource : Bytes) : Subs := r.subs[resource]?.getD ∅

def countOf (remote : Bytes) : Int := r.remoteCount[remote]?.getD 0

/-- The first relation of `remote` on one resource that a walk comes across. -/
def previous (walk : WalkOrder (Bytes × Observer)) (subs : Subs) (remote : Bytes) :
    Option Bytes :=
  ((walk.order subs.toList).find? (·.2.remote = remote)).map Prod.fst

/-- `Register`.  The inner map is created before anything is decided, so a
refused registration leaves it behind. -/
def register (walk : WalkOrder (Bytes × Observer)) (r : ObserverRegistry)
    (resource remote token : Bytes) : ObserverRegistry × Option Observer :=
  let subs := r.subsOf resource
  let r := { r with subs := r.subs.insert resource subs }
  let key := observerKey remote token
  match subs[key]? with
  | some obs => (r, some obs)
  | none =>
    let obs : Observer := ⟨r.fresh, token, remote, resource⟩
    match previous walk subs remote with
    | some oldKey =>
      let count := if 0 < r.countOf remote then r.countOf remote - 1 else r.countOf remote
      ({ r with
          subs := r.subs.insert resource ((subs.erase oldKey).insert key obs)
          remoteCount := r.remoteCount.insert remote (count + 1)
          fresh := r.fresh + 1 }, some obs)
    | none =>
      if maxObserversPerRemote ≤ r.countOf remote ∨ maxObserversTotal ≤ r.total then (r, none)
      else
        ({ r with
            subs := r.subs.insert resource (subs.insert key obs)
            remoteCount := r.remoteCount.insert remote (r.countOf remote + 1)
            total := r.total + 1
            fresh := r.fresh + 1 }, some obs)

def removeLocked (resource remote token : Bytes) : ObserverRegistry :=
  let key := observerKey remote token
  match r.subs[resource]? with
  | none => r
  | some subs =>
    if key ∈ subs then
      let subs := subs.erase key
      { r with
        subs := if subs.size = 0 then r.subs.erase resource else r.subs.insert resource subs
        remoteCount :=
          if 0 < r.countOf remote then
            if r.countOf remote - 1 = 0 then r.remoteCount.erase remote
            else r.remoteCount.insert remote (r.countOf remote - 1)
          else r.remoteCount
        total := r.total - 1 }
    else r

def remove (resource remote token : Bytes) : ObserverRegistry :=
  r.removeLocked resource remote token

def removeByToken (remote token : Bytes) : ObserverRegistry :=
  r.subs.keys.foldl (fun r resource =>
    if observerKey remote token ∈ r.subsOf resource then r.removeLocked resource remote token
    else r) r

def removeBySession (remote : Bytes) : ObserverRegistry :=
  let r := r.subs.toList.foldl (fun r (resource, subs) =>
    let kept := subs.filter (fun _ obs => obs.remote ≠ remote)
    { r with
      subs := if kept.size = 0 then r.subs.erase resource else r.subs.insert resource kept
      total := r.total - (subs.size - kept.size) }) r
  { r with remoteCount := r.remoteCount.erase remote }

def hasObservers (remote : Bytes) : Bool := 0 < r.countOf remote

/-- `Notify`: the observers of a resource, in any order. -/
def notify (walk : WalkOrder (Bytes × Observer)) (r : ObserverRegistry) (resource : Bytes) :
    List Observer := walk.values (r.subsOf resource)

/-- The observer a request refers to, as `observerSeq` looks it up. -/
def find (resource remote token : Bytes) : Option Observer :=
  (r.subsOf resource)[observerKey remote token]?

/-- `obs.NextSeq()`: the number read, and the registry with it advanced. -/
def nextSeq (obs : Observer) : UInt32 × ObserverRegistry :=
  let v := r.seqs[obs.ptr]?.getD 0
  (v, { r with seqs := r.seqs.insert obs.ptr (v + 1) })

end ObserverRegistry

end SharkSocket.Coap
