import SharkSocket.Core
import SharkSocket.Lib.Text
import SharkSocket.Lib.Walk

/-!
# `protocol/lwm2m`: registrations, resources and the text commands

`server.go` keeps the registered endpoints and the resources written for them,
`model.go` has the paths and the object definitions, and `coap.go` maps a text
command to an operation of the server.  Text is its bytes; times and durations
are nanoseconds.

`Write` calls `OnWrite` after it has released the lock.  Here an operation
returns the calls it makes, in `written`, to be run by whoever wired `OnWrite`.
-/

namespace SharkSocket.Lwm2m

open Lib
open Std (ExtTreeMap)

def errInvalidPath : Err := .other "invalid lwm2m path"
def errRegistrationGone : Err := .other "registration not found"
def errReadOnly : Err := .other "resource is read-only"
def errRegistrationLimit : Err := .other "registration limit reached"
def errInvalidCoAPPayload : Err := .other "invalid lwm2m coap payload"

def second : Int := 1000000000

/-! ### `model.go` -/

/-- `OperationMask`. -/
def opRead : UInt8 := 1
def opWrite : UInt8 := 2
def opExecute : UInt8 := 4

def allows (mask op : UInt8) : Bool := mask &&& op ≠ 0

structure ResourceDefinition where
  id : Int
  name : Bytes
  operations : UInt8
  deriving DecidableEq, Repr

structure ObjectDefinition where
  id : Int
  name : Bytes
  version : Bytes
  resources : List ResourceDefinition
  deriving DecidableEq, Repr

structure ObjectPath where
  objectID : Int
  instanceID : Int
  resourceID : Int
  deriving DecidableEq, Repr

/-- One part of a path: a number that is not negative. -/
def pathPart (part : Bytes) : Option Int := (atoi part).filter (0 ≤ ·)

def parsePath (path : Bytes) : Except Err ObjectPath :=
  match List.splitOn 0x2f (trimByte 0x2f path) with
  | [o, i, r] =>
    match pathPart o, pathPart i, pathPart r with
    | some o, some i, some r => .ok ⟨o, i, r⟩
    | _, _, _ => .error errInvalidPath
  | _ => .error errInvalidPath

/-- `ObjectPath.String`. -/
def ObjectPath.string (p : ObjectPath) : Bytes :=
  0x2f :: decimal p.objectID ++ 0x2f :: decimal p.instanceID ++ 0x2f :: decimal p.resourceID

structure Resource where
  path : ObjectPath
  value : Bytes
  updatedAt : Int
  deriving DecidableEq, Repr

structure Registration where
  endpoint : Bytes
  lifetime : Int
  objects : List ObjectPath
  createdAt : Int
  updatedAt : Int
  deriving DecidableEq, Repr

def Registration.expired (r : Registration) (now : Int) : Bool :=
  0 < r.lifetime ∧ r.lifetime < now - r.updatedAt

/-! ### `server.go` -/

def maxLifetime : Int := 30 * 24 * 3600 * second
def sweepThrottle : Int := 60 * second

/-- `lastSweepAt` is `none` for the zero time. -/
structure Server where
  registrations : ExtTreeMap Bytes Registration
  resources : ExtTreeMap Bytes (ExtTreeMap Bytes Resource)
  objects : ExtTreeMap Int ObjectDefinition
  defaultLife : Int
  maxRegistrations : Nat
  lastSweepAt : Option Int

def Server.new : Server := ⟨∅, ∅, ∅, 300 * second, 65536, none⟩

inductive ServerOption
  | maxRegistrations (max : Int)
  | defaultLifetime (lifetime : Int)

/-- `WithMaxRegistrations` and `WithDefaultLifetime` ignore what is not positive. -/
def Server.configure (s : Server) : ServerOption → Server
  | .maxRegistrations max => if 0 < max then { s with maxRegistrations := max.toNat } else s
  | .defaultLifetime lifetime => if 0 < lifetime then { s with defaultLife := lifetime } else s

def newServer (opts : List ServerOption) : Server := opts.foldl Server.configure .new

namespace Server

variable (s : Server)

def registerObject (definition : ObjectDefinition) : Server :=
  { s with objects := s.objects.insert definition.id definition }

def sweepLocked (now : Int) : Server :=
  let gone := s.registrations.filter fun _ reg => reg.expired now
  { s with
    registrations := s.registrations.filter fun _ reg => !reg.expired now
    resources := s.resources.filter fun endpoint _ => endpoint ∉ gone }

/-- The sweep of a full table, at most once in `sweepThrottle`.  `since` is the
clock that `time.Since` reads, some time after `now`. -/
def makeRoom (now since : Int) : Server :=
  let due := match s.lastSweepAt with
    | none => true
    | some at_ => sweepThrottle ≤ since - at_
  if due then { s.sweepLocked now with lastSweepAt := some now } else s

def store (reg : Registration) : Server :=
  { s with
    registrations := s.registrations.insert reg.endpoint reg
    resources := if reg.endpoint ∈ s.resources then s.resources
      else s.resources.insert reg.endpoint ∅ }

def register (now since : Int) (endpoint : Bytes) (lifetime : Int) (objects : List ObjectPath) :
    Except Err Registration × Server :=
  let lifetime := if lifetime ≤ 0 then s.defaultLife else lifetime
  let lifetime := if maxLifetime < lifetime then maxLifetime else lifetime
  let reg : Registration := ⟨endpoint, lifetime, objects, now, now⟩
  if endpoint ∈ s.registrations then (.ok reg, s.store reg)
  else
    let s := if s.maxRegistrations ≤ s.registrations.size then s.makeRoom now since else s
    if s.maxRegistrations ≤ s.registrations.size then (.error errRegistrationLimit, s)
    else (.ok reg, s.store reg)

def update (now : Int) (endpoint : Bytes) (lifetime : Int) : Except Err Registration × Server :=
  match s.registrations[endpoint]? with
  | none => (.error errRegistrationGone, s)
  | some reg =>
    let lifetime := if 0 < lifetime then min lifetime maxLifetime else reg.lifetime
    let reg := { reg with lifetime := lifetime, updatedAt := now }
    (.ok reg, { s with registrations := s.registrations.insert endpoint reg })

def deregister (endpoint : Bytes) : Server :=
  { s with
    registrations := s.registrations.erase endpoint
    resources := s.resources.erase endpoint }

/-- The definition of the path's object names the resource as not writable. -/
def readOnly (path : ObjectPath) : Bool :=
  match s.objects[path.objectID]? with
  | none => false
  | some definition =>
    definition.resources.any fun res => res.id = path.resourceID ∧ !allows res.operations opWrite

/-- `Write`, with the call of `OnWrite` it makes. -/
def write (now : Int) (endpoint : Bytes) (path : ObjectPath) (value : Bytes) :
    Except Err (Bytes × Bytes) × Server :=
  if endpoint ∉ s.registrations then (.error errRegistrationGone, s)
  else if s.readOnly path then (.error errReadOnly, s)
  else
    let resources := (s.resources[endpoint]?.getD ∅).insert path.string ⟨path, value, now⟩
    (.ok (path.string, value), { s with resources := s.resources.insert endpoint resources })

def read (endpoint : Bytes) (path : ObjectPath) : Option Resource :=
  match s.resources[endpoint]? with
  | none => none
  | some resources => resources[path.string]?

/-- `SweepExpired`, with the number of registrations it removed. -/
def sweepExpired (now : Int) : Nat × Server :=
  ((s.registrations.filter fun _ reg => reg.expired now).size, s.sweepLocked now)

/-! ### `coap.go` -/

/-- What a command leaves: its answer, the server, and the calls of `OnWrite`. -/
structure Answer where
  result : Except Err Bytes
  server : Server
  written : List (Bytes × Bytes)

def refuse (e : Err) : Answer := ⟨.error e, s, []⟩

def parseLifetime (raw : Bytes) : Except Err Int :=
  match atoi raw with
  | none => .error errInvalidCoAPPayload
  | some seconds =>
    if seconds < 0 ∨ maxLifetime / second < seconds then .error errInvalidCoAPPayload
    else .ok (seconds * second)

def handleRegister (now since : Int) (fields : List Bytes) : Answer :=
  match fields with
  | _ :: endpoint :: lifetime :: paths =>
    match parseLifetime lifetime with
    | .error e => s.refuse e
    | .ok lifetime =>
      match paths.mapM parsePath with
      | .error e => s.refuse e
      | .ok objects =>
        match s.register now since endpoint lifetime objects with
        | (.error e, s) => s.refuse e
        | (.ok reg, s) => ⟨.ok (ascii "registered " ++ reg.endpoint), s, []⟩
  | _ => s.refuse errInvalidCoAPPayload

def handleUpdate (now : Int) (fields : List Bytes) : Answer :=
  match fields with
  | [_, endpoint, lifetime] =>
    match parseLifetime lifetime with
    | .error e => s.refuse e
    | .ok lifetime =>
      match s.update now endpoint lifetime with
      | (.error e, s) => s.refuse e
      | (.ok reg, s) => ⟨.ok (ascii "updated " ++ reg.endpoint), s, []⟩
  | _ => s.refuse errInvalidCoAPPayload

def handleDeregister (fields : List Bytes) : Answer :=
  match fields with
  | [_, endpoint] => ⟨.ok (ascii "deregistered " ++ endpoint), s.deregister endpoint, []⟩
  | _ => s.refuse errInvalidCoAPPayload

def handleWrite (now : Int) (fields : List Bytes) : Answer :=
  match fields with
  | _ :: endpoint :: raw :: word :: words =>
    match parsePath raw with
    | .error e => s.refuse e
    | .ok path =>
      match s.write now endpoint path (List.intercalate [0x20] (word :: words)) with
      | (.error e, s) => s.refuse e
      | (.ok call, s) => ⟨.ok (ascii "changed " ++ raw), s, [call]⟩
  | _ => s.refuse errInvalidCoAPPayload

def handleRead (fields : List Bytes) : Answer :=
  match fields with
  | [_, endpoint, raw] =>
    match parsePath raw with
    | .error e => s.refuse e
    | .ok path =>
      match s.read endpoint path with
      | none => s.refuse errRegistrationGone
      | some resource => ⟨.ok resource.value, s, []⟩
  | _ => s.refuse errInvalidCoAPPayload

def describeResource (object : ObjectDefinition) (res : ResourceDefinition) : Bytes :=
  let ops := (if allows res.operations opRead then ascii "R" else []) ++
    (if allows res.operations opWrite then ascii "W" else []) ++
    (if allows res.operations opExecute then ascii "E" else [])
  ascii "  /" ++ decimal object.id ++ ascii "/0/" ++ decimal res.id ++ ascii " " ++ res.name ++
    ascii " " ++ ops

def describeObject (object : ObjectDefinition) : List Bytes :=
  (decimal object.id ++ ascii "/" ++ object.name ++ ascii "/" ++ object.version) ::
    object.resources.map (describeResource object)

def handleDiscover (walk : WalkOrder (Int × ObjectDefinition)) (s : Server) : Answer :=
  let objects := walk.values s.objects
  if objects = [] then ⟨.ok (ascii "no objects registered"), s, []⟩
  else ⟨.ok (List.intercalate (ascii "\n") (objects.flatMap describeObject)), s, []⟩

/-- `HandleCoAPPayload`; `walk` is the order in which `SupportedObjects` meets
the objects, and `since` the second reading of the clock in `Register`. -/
def handleCoAPPayloadAt (walk : WalkOrder (Int × ObjectDefinition)) (s : Server)
    (now since : Int) (payload : Bytes) : Answer :=
  match fields payload with
  | [] => s.refuse errInvalidCoAPPayload
  | operation :: rest =>
    let command := toLower operation
    let fields := operation :: rest
    if command = ascii "register" then s.handleRegister now since fields
    else if command = ascii "update" then s.handleUpdate now fields
    else if command = ascii "deregister" then s.handleDeregister fields
    else if command = ascii "write" then s.handleWrite now fields
    else if command = ascii "read" then s.handleRead fields
    else if command = ascii "discover" then s.handleDiscover walk
    else s.refuse (.wrap "invalid lwm2m coap payload: operation" errInvalidCoAPPayload)

/-- `HandleCoAPPayload` while the clock stands still. -/
def handleCoAPPayload (walk : WalkOrder (Int × ObjectDefinition)) (s : Server) (now : Int)
    (payload : Bytes) : Answer := s.handleCoAPPayloadAt walk now now payload

end Server

end SharkSocket.Lwm2m
