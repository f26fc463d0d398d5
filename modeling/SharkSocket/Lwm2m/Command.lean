import SharkSocket.Lwm2m.Server

/-!
# Text commands

`HandleCoAPPayload` reads a command from the words of the payload and then runs
it.  `parseCommand` is the reading, which does not look at the server, and `exec`
is the running; `handleCoAPPayloadAt_eq` says that the two make up the handlers
of `coap.go`.
-/

namespace SharkSocket.Lwm2m

open Lib

inductive Command
  | register (endpoint : Bytes) (lifetime : Int) (objects : List ObjectPath)
  | update (endpoint : Bytes) (lifetime : Int)
  | deregister (endpoint : Bytes)
  | write (endpoint raw : Bytes) (path : ObjectPath) (value : Bytes)
  | read (endpoint : Bytes) (path : ObjectPath)
  | discover
  deriving DecidableEq, Repr

def parseRegister (args : List Bytes) : Except Err Command :=
  match args with
  | endpoint :: lifetime :: paths =>
    match Server.parseLifetime lifetime with
    | .error e => .error e
    | .ok lifetime =>
      match paths.mapM parsePath with
      | .error e => .error e
      | .ok objects => .ok (.register endpoint lifetime objects)
  | _ => .error errInvalidCoAPPayload

def parseUpdate (args : List Bytes) : Except Err Command :=
  match args with
  | [endpoint, lifetime] =>
    match Server.parseLifetime lifetime with
    | .error e => .error e
    | .ok lifetime => .ok (.update endpoint lifetime)
  | _ => .error errInvalidCoAPPayload

def parseDeregister (args : List Bytes) : Except Err Command :=
  match args with
  | [endpoint] => .ok (.deregister endpoint)
  | _ => .error errInvalidCoAPPayload

def parseWrite (args : List Bytes) : Except Err Command :=
  match args with
  | endpoint :: raw :: word :: words =>
    match parsePath raw with
    | .error e => .error e
    | .ok path => .ok (.write endpoint raw path (List.intercalate [0x20] (word :: words)))
  | _ => .error errInvalidCoAPPayload

def parseRead (args : List Bytes) : Except Err Command :=
  match args with
  | [endpoint, raw] =>
    match parsePath raw with
    | .error e => .error e
    | .ok path => .ok (.read endpoint path)
  | _ => .error errInvalidCoAPPayload

def parseCommand (payload : Bytes) : Except Err Command :=
  match fields payload with
  | [] => .error errInvalidCoAPPayload
  | operation :: args =>
    let command := toLower operation
    if command = ascii "register" then parseRegister args
    else if command = ascii "update" then parseUpdate args
    else if command = ascii "deregister" then parseDeregister args
    else if command = ascii "write" then parseWrite args
    else if command = ascii "read" then parseRead args
    else if command = ascii "discover" then .ok .discover
    else .error (.wrap "invalid lwm2m coap payload: operation" errInvalidCoAPPayload)

/-! ### The words of a command -/

def Writes (payload endpoint : Bytes) (path : ObjectPath) (value : Bytes) : Prop :=
  ∃ operation raw word words, fields payload = operation :: endpoint :: raw :: word :: words ∧
    toLower operation = ascii "write" ∧ parsePath raw = .ok path ∧
    value = List.intercalate [0x20] (word :: words)

def Reads (payload endpoint : Bytes) (path : ObjectPath) : Prop :=
  ∃ operation raw, fields payload = [operation, endpoint, raw] ∧
    toLower operation = ascii "read" ∧ parsePath raw = .ok path

def Deregisters (payload endpoint : Bytes) : Prop :=
  ∃ operation, fields payload = [operation, endpoint] ∧ toLower operation = ascii "deregister"

variable {args : List Bytes} {c : Command}

theorem parseRegister_ok (h : parseRegister args = .ok c) :
    ∃ endpoint lifetime objects, c = .register endpoint lifetime objects := by
  unfold parseRegister at h
  split at h
  · split at h
    · cases h
    split at h
    · cases h
    cases h
    exact ⟨_, _, _, rfl⟩
  · cases h

theorem parseUpdate_ok (h : parseUpdate args = .ok c) :
    ∃ endpoint lifetime, c = .update endpoint lifetime := by
  unfold parseUpdate at h
  split at h
  · split at h
    · cases h
    cases h
    exact ⟨_, _, rfl⟩
  · cases h

theorem parseDeregister_ok (h : parseDeregister args = .ok c) :
    ∃ endpoint, args = [endpoint] ∧ c = .deregister endpoint := by
  unfold parseDeregister at h
  split at h
  · cases h
    exact ⟨_, rfl, rfl⟩
  · cases h

theorem parseWrite_ok (h : parseWrite args = .ok c) :
    ∃ endpoint raw path word words, args = endpoint :: raw :: word :: words ∧
      parsePath raw = .ok path ∧
      c = .write endpoint raw path (List.intercalate [0x20] (word :: words)) := by
  unfold parseWrite at h
  split at h
  · split at h
    · cases h
    rename_i path hpath
    cases h
    exact ⟨_, _, path, _, _, rfl, hpath, rfl⟩
  · cases h

theorem parseRead_ok (h : parseRead args = .ok c) :
    ∃ endpoint raw path, args = [endpoint, raw] ∧ parsePath raw = .ok path ∧
      c = .read endpoint path := by
  unfold parseRead at h
  split at h
  · split at h
    · cases h
    rename_i path hpath
    cases h
    exact ⟨_, _, path, rfl, hpath, rfl⟩
  · cases h

variable (payload : Bytes)

/-- What the words of a payload are, by the command that is read from them. -/
inductive Parsed : Command → Prop
  | register (endpoint : Bytes) (lifetime : Int) (objects : List ObjectPath) :
      Parsed (.register endpoint lifetime objects)
  | update (endpoint : Bytes) (lifetime : Int) : Parsed (.update endpoint lifetime)
  | deregister {endpoint : Bytes} : Deregisters payload endpoint → Parsed (.deregister endpoint)
  | write {endpoint raw value : Bytes} {path : ObjectPath} :
      Writes payload endpoint path value → Parsed (.write endpoint raw path value)
  | read {endpoint : Bytes} {path : ObjectPath} :
      Reads payload endpoint path → Parsed (.read endpoint path)
  | discover : Parsed .discover

variable {endpoint payload : Bytes}

theorem parseCommand_cases (h : parseCommand payload = .ok c) : Parsed payload c := by
  unfold parseCommand at h
  split at h
  · cases h
  rename_i operation args hfields
  dsimp only at h
  split at h
  · obtain ⟨_, _, _, rfl⟩ := parseRegister_ok h
    exact .register _ _ _
  split at h
  · obtain ⟨_, _, rfl⟩ := parseUpdate_ok h
    exact .update _ _
  split at h
  · rename_i hop
    obtain ⟨_, rfl, rfl⟩ := parseDeregister_ok h
    exact .deregister ⟨operation, hfields, hop⟩
  split at h
  · rename_i hop
    obtain ⟨_, raw, _, word, words, rfl, hpath, rfl⟩ := parseWrite_ok h
    exact .write ⟨operation, raw, word, words, hfields, hop, hpath, rfl⟩
  split at h
  · rename_i hop
    obtain ⟨_, raw, _, rfl, hpath, rfl⟩ := parseRead_ok h
    exact .read ⟨operation, raw, hfields, hop, hpath⟩
  split at h
  · cases h
    exact .discover
  · cases h

theorem parseCommand_deregister :
    parseCommand payload = .ok (.deregister endpoint) ↔ Deregisters payload endpoint := by
  constructor
  · intro h
    cases parseCommand_cases h with
    | deregister hwords => exact hwords
  · rintro ⟨operation, hfields, hop⟩
    unfold parseCommand
    rw [hfields]
    dsimp only
    rw [hop]
    rfl

theorem parseCommand_write {value : Bytes} {path : ObjectPath} :
    (∃ raw, parseCommand payload = .ok (.write endpoint raw path value)) ↔
      Writes payload endpoint path value := by
  constructor
  · rintro ⟨raw, h⟩
    cases parseCommand_cases h with
    | write hwords => exact hwords
  · rintro ⟨operation, raw, word, words, hfields, hop, hpath, rfl⟩
    refine ⟨raw, ?_⟩
    unfold parseCommand
    rw [hfields]
    dsimp only
    rw [hop, if_neg (by decide), if_neg (by decide), if_neg (by decide), if_pos rfl]
    simp only [parseWrite, hpath]

theorem parseCommand_read {path : ObjectPath} (h : Reads payload endpoint path) :
    parseCommand payload = .ok (.read endpoint path) := by
  obtain ⟨operation, raw, hfields, hop, hpath⟩ := h
  unfold parseCommand
  rw [hfields]
  dsimp only
  rw [hop, if_neg (by decide), if_neg (by decide), if_neg (by decide), if_neg (by decide),
    if_pos rfl]
  simp only [parseRead, hpath]

namespace Server

variable (walk : WalkOrder (Int × ObjectDefinition)) (s : Server) (now since : Int)

def exec : Command → Answer
  | .register endpoint lifetime objects =>
    match s.register now since endpoint lifetime objects with
    | (.error e, s) => s.refuse e
    | (.ok reg, s) => ⟨.ok (ascii "registered " ++ reg.endpoint), s, []⟩
  | .update endpoint lifetime =>
    match s.update now endpoint lifetime with
    | (.error e, s) => s.refuse e
    | (.ok reg, s) => ⟨.ok (ascii "updated " ++ reg.endpoint), s, []⟩
  | .deregister endpoint =>
    ⟨.ok (ascii "deregistered " ++ endpoint), s.deregister endpoint, []⟩
  | .write endpoint raw path value =>
    match s.write now endpoint path value with
    | (.error e, s) => s.refuse e
    | (.ok call, s) => ⟨.ok (ascii "changed " ++ raw), s, [call]⟩
  | .read endpoint path =>
    match s.read endpoint path with
    | none => s.refuse errRegistrationGone
    | some resource => ⟨.ok resource.value, s, []⟩
  | .discover => s.handleDiscover walk

/-- Reading a command and running it. -/
def run (c : Except Err Command) : Answer :=
  match c with
  | .error e => s.refuse e
  | .ok c => s.exec walk now since c

variable (operation : Bytes) (args : List Bytes)

theorem handleRegister_eq : s.handleRegister now since (operation :: args) =
    s.run walk now since (parseRegister args) := by
  unfold handleRegister parseRegister
  rcases args with _ | ⟨endpoint, _ | ⟨lifetime, paths⟩⟩
  · rfl
  · rfl
  dsimp only
  cases parseLifetime lifetime with
  | error e => rfl
  | ok lifetime =>
    cases List.mapM parsePath paths <;> rfl

theorem handleUpdate_eq : s.handleUpdate now (operation :: args) =
    s.run walk now since (parseUpdate args) := by
  unfold handleUpdate parseUpdate
  rcases args with _ | ⟨endpoint, _ | ⟨lifetime, _ | ⟨word, words⟩⟩⟩
  · rfl
  · rfl
  · dsimp only
    cases parseLifetime lifetime <;> rfl
  · rfl

theorem handleDeregister_eq : s.handleDeregister (operation :: args) =
    s.run walk now since (parseDeregister args) := by
  rcases args with _ | ⟨endpoint, _ | ⟨word, words⟩⟩ <;> rfl

theorem handleWrite_eq : s.handleWrite now (operation :: args) =
    s.run walk now since (parseWrite args) := by
  unfold handleWrite parseWrite
  rcases args with _ | ⟨endpoint, _ | ⟨raw, _ | ⟨word, words⟩⟩⟩
  · rfl
  · rfl
  · rfl
  dsimp only
  cases parsePath raw <;> rfl

theorem handleRead_eq : s.handleRead (operation :: args) =
    s.run walk now since (parseRead args) := by
  unfold handleRead parseRead
  rcases args with _ | ⟨endpoint, _ | ⟨raw, _ | ⟨word, words⟩⟩⟩
  · rfl
  · rfl
  · dsimp only
    cases parsePath raw <;> rfl
  · rfl

theorem handleCoAPPayloadAt_eq (payload : Bytes) :
    s.handleCoAPPayloadAt walk now since payload = s.run walk now since (parseCommand payload) := by
  unfold handleCoAPPayloadAt parseCommand
  cases fields payload with
  | nil => rfl
  | cons operation args =>
    dsimp only
    split
    · exact s.handleRegister_eq walk now since operation args
    split
    · exact s.handleUpdate_eq walk now since operation args
    split
    · exact s.handleDeregister_eq walk now since operation args
    split
    · exact s.handleWrite_eq walk now since operation args
    split
    · exact s.handleRead_eq walk now since operation args
    · split <;> rfl

end Server

end SharkSocket.Lwm2m
