import SharkSocket.Lwm2m.Registry

/-!
# What a `read` command answers

To its clients the server is a map from an endpoint and a path to the value of
the last write.  `LastWritten e p history value` says so of a list of commands
and their answers: a `write` of `p` for `e` succeeded with this value, and after it
neither another one nor a `deregister` of `e` did.

The server stores resources under the text of their path, so two things carry the
proof: paths with the same text are equal (`ObjectPath.string_injective`), and each
command changes what is stored as `note` says (`value_exec`).

* `parsePath_slashes`, `parsePath_zeros`: ways to write the same path;
* `read_lastWritten`: a `read` is answered with the last written value.
-/

namespace SharkSocket.Lwm2m

open Lib
open Std (ExtTreeMap)

/-! ### Paths and their texts -/

theorem slash_notMem_decimal (n : Int) : 0x2f ∉ decimal n := fun h =>
  forall_decimal (P := fun b => b ≠ 0x2f) (by decide) (by decide) n 0x2f h rfl

theorem ObjectPath.splitOn_string (p : ObjectPath) : List.splitOn 0x2f p.string =
    [[], decimal p.objectID, decimal p.instanceID, decimal p.resourceID] := by
  have hstring : p.string = [] ++ 0x2f :: (decimal p.objectID ++ 0x2f ::
      (decimal p.instanceID ++ 0x2f :: decimal p.resourceID)) := by
    simp [string]
  simp only [hstring, List.splitOn_append_cons_self_of_not_mem, List.splitOn_eq_singleton,
    slash_notMem_decimal, List.not_mem_nil, not_false_eq_true]

variable {p : ObjectPath}

/-- Different paths have different texts. -/
theorem ObjectPath.string_injective {q : ObjectPath} (h : p.string = q.string) : p = q := by
  have hsplit := congrArg (List.splitOn 0x2f) h
  rw [splitOn_string, splitOn_string] at hsplit
  simp only [List.cons.injEq, true_and, and_true] at hsplit
  obtain ⟨ho, hi, hr⟩ := hsplit
  cases p
  cases q
  simp only [ObjectPath.mk.injEq]
  exact ⟨decimal_injective _ _ ho, decimal_injective _ _ hi, decimal_injective _ _ hr⟩

/-- Slashes around a path do not matter. -/
theorem parsePath_slashes (m n : Nat) (raw : Bytes) :
    parsePath (List.replicate m 0x2f ++ raw ++ List.replicate n 0x2f) = parsePath raw := by
  unfold parsePath
  rw [trimByte_replicate]

/-- Three runs of digits as a path. -/
def pathText (o i r : Bytes) : Bytes := o ++ 0x2f :: (i ++ 0x2f :: r)

def Digits (s : Bytes) : Prop := s ≠ [] ∧ s.all isDigit = true

theorem Digits.zeros {s : Bytes} (h : Digits s) (k : Nat) :
    Digits (List.replicate k 0x30 ++ s) :=
  ⟨by simp [h.1], all_isDigit_zeros k h.2⟩

theorem Digits.slash_notMem {s : Bytes} (h : Digits s) : 0x2f ∉ s := by
  intro hm
  exact absurd (List.all_eq_true.mp h.2 0x2f hm) (by decide)

theorem parsePath_pathText {o i r : Bytes} (ho : Digits o) (hi : Digits i) (hr : Digits r) :
    parsePath (pathText o i r) =
      match pathPart o, pathPart i, pathPart r with
      | some o, some i, some r => .ok ⟨o, i, r⟩
      | _, _, _ => .error errInvalidPath := by
  have htrim : trimByte 0x2f (pathText o i r) = pathText o i r := by
    refine trimByte_eq_self ?_ ?_
    · intro hc
      rw [pathText, List.head?_append_of_ne_nil _ ho.1] at hc
      exact ho.slash_notMem (List.mem_of_head? hc)
    · intro hc
      have hne : i ++ 0x2f :: r ≠ [] := by simp
      have hlast : (pathText o i r).getLast? = r.getLast? := by
        rw [pathText, List.getLast?_append_cons, List.getLast?_cons_of_ne_nil hne,
          List.getLast?_append_cons, List.getLast?_cons_of_ne_nil hr.1]
      rw [hlast] at hc
      exact hr.slash_notMem (List.mem_of_getLast? hc)
  unfold parsePath
  rewrite [htrim, pathText, List.splitOn_append_cons_self_of_not_mem ho.slash_notMem,
    List.splitOn_append_cons_self_of_not_mem hi.slash_notMem,
    List.splitOn_eq_singleton hr.slash_notMem]
  rfl

/-- Neither do zeros in front of a number. -/
theorem parsePath_zeros (k l m : Nat) {o i r : Bytes} (ho : Digits o) (hi : Digits i)
    (hr : Digits r) : parsePath (pathText (List.replicate k 0x30 ++ o) (List.replicate l 0x30 ++ i)
      (List.replicate m 0x30 ++ r)) = parsePath (pathText o i r) := by
  have hpart : ∀ (k : Nat) {s : Bytes}, Digits s →
      pathPart (List.replicate k 0x30 ++ s) = pathPart s := by
    intro k s hs
    rw [pathPart, atoi_zeros k hs.1 hs.2, pathPart]
  rw [parsePath_pathText (ho.zeros k) (hi.zeros l) (hr.zeros m), parsePath_pathText ho hi hr,
    hpart k ho, hpart l hi, hpart m hr]

/-! ### What is stored -/

variable (e : Bytes) (p : ObjectPath)

namespace Server

/-- The value stored for a path of an endpoint. -/
def value (s : Server) (e : Bytes) (p : ObjectPath) : Option Bytes :=
  (s.read e p).map Resource.value

/-- No registration has run out. -/
def Live (s : Server) (now : Int) : Prop :=
  ∀ entry ∈ s.registrations.toList, entry.2.expired now = false

instance (s : Server) (now : Int) : Decidable (s.Live now) :=
  inferInstanceAs (Decidable (∀ entry ∈ s.registrations.toList, entry.2.expired now = false))

variable {s t : Server} {now : Int}

theorem value_eq : s.value e p =
    (s.resources[e]?.bind fun m => m[p.string]?).map Resource.value := by
  unfold value read
  cases s.resources[e]? <;> rfl

theorem value_of_sameMaps (h : s.SameMaps t) : t.value e p = s.value e p := by
  rw [value_eq, value_eq, h.2]

/-- A sweep that meets no expired registration leaves everything. -/
theorem Live.makeRoom (h : s.Live now) (since : Int) : s.SameMaps (s.makeRoom now since) := by
  have hkeep : s.registrations.filter (fun _ reg => !reg.expired now) = s.registrations := by
    refine ExtTreeMap.filter_eq_self_iff.mpr fun k hk => ?_
    have hget := ExtTreeMap.getElem?_eq_some_getElem hk
    rw [h (k, s.registrations[k]) (ExtTreeMap.mem_toList_iff_getElem?_eq_some.mpr hget)]
    rfl
  rcases makeRoom_eq s now since with heq | heq
  · rw [heq]
    exact .refl s
  rw [heq]
  exact sweepLocked_of_size (congrArg ExtTreeMap.size hkeep)

theorem value_store (reg : Registration) : (s.store reg).value e p = s.value e p := by
  rw [value_eq, value_eq]
  dsimp only [store]
  by_cases hin : reg.endpoint ∈ s.resources
  · rw [if_pos hin]
  rw [if_neg hin, ExtTreeMap.getElem?_insert]
  split
  · -- a new endpoint has no resources yet, and had none before
    rename_i heq
    rw [Std.compare_eq_iff_eq] at heq
    subst heq
    rw [ExtTreeMap.getElem?_eq_none hin]
    simp
  · rfl

theorem value_register (h : s.Live now) (since : Int) (endpoint : Bytes) (lifetime : Int)
    (objects : List ObjectPath) :
    (s.register now since endpoint lifetime objects).2.value e p = s.value e p := by
  have hroom : (s.makeRoom now since).value e p = s.value e p :=
    value_of_sameMaps e p (h.makeRoom since)
  rcases register_cases s now since endpoint lifetime objects with ⟨t, ht, -, heq⟩ | ⟨-, heq⟩
  · rw [heq, value_store]
    rcases ht with rfl | rfl
    · rfl
    · exact hroom
  rw [heq]
  exact hroom

theorem value_update (now : Int) (endpoint : Bytes) (lifetime : Int) :
    (s.update now endpoint lifetime).2.value e p = s.value e p := by
  unfold update
  split <;> rfl

theorem value_deregister (endpoint : Bytes) :
    (s.deregister endpoint).value e p = if endpoint = e then none else s.value e p := by
  rw [value_eq, value_eq]
  dsimp only [deregister]
  rw [ExtTreeMap.getElem?_erase]
  simp only [Std.compare_eq_iff_eq]
  split <;> rfl

theorem value_write_error {endpoint w : Bytes} {path : ObjectPath} {err : Err}
    (h : errorOf (s.write now endpoint path w).1 = some err) :
    (s.write now endpoint path w).2.value e p = s.value e p :=
  value_of_sameMaps e p (write_error s now endpoint path w h)

theorem value_write_ok {endpoint w : Bytes} {path : ObjectPath}
    (h : errorOf (s.write now endpoint path w).1 = none) :
    (s.write now endpoint path w).2.value e p =
      if endpoint = e ∧ path = p then some w else s.value e p := by
  unfold write at h ⊢
  split
  · rename_i hout
    rw [if_pos hout] at h
    cases h
  split
  · rename_i hin hro
    rw [if_neg hin, if_pos hro] at h
    cases h
  rw [value_eq, value_eq]
  rw [ExtTreeMap.getElem?_insert]
  by_cases he : endpoint = e
  · subst he
    simp only [if_true, true_and, Option.bind_some, ExtTreeMap.getElem?_insert,
      Std.compare_eq_iff_eq]
    by_cases hp : path = p
    · subst hp
      simp
    have hs : path.string ≠ p.string := fun heq => hp (ObjectPath.string_injective heq)
    rw [if_neg hs, if_neg hp]
    cases s.resources[endpoint]? <;> simp
  · simp [he]

end Server

/-! ### The last write -/

/-- What a successful command does to the value of a path. -/
def note (last : Option Bytes) : Command → Option Bytes
  | .write endpoint _ path value => if endpoint = e ∧ path = p then some value else last
  | .deregister endpoint => if endpoint = e then none else last
  | _ => last

/-- A successful command changes the stored values as `note` says, and one that fails
does not change them. -/
theorem Server.value_exec {s : Server} {now : Int} (h : s.Live now)
    (walk : WalkOrder (Int × ObjectDefinition)) (since : Int) (c : Command) :
    (s.exec walk now since c).server.value e p =
      match (s.exec walk now since c).result with
      | .ok _ => note e p (s.value e p) c
      | .error _ => s.value e p := by
  cases c with
  | register endpoint lifetime objects =>
    have hr := value_register e p h since endpoint lifetime objects
    dsimp only [exec]
    split <;> (rename_i he; rw [he] at hr; exact hr)
  | update endpoint lifetime =>
    have hr := value_update (s := s) e p now endpoint lifetime
    dsimp only [exec]
    split <;> (rename_i he; rw [he] at hr; exact hr)
  | deregister endpoint => exact value_deregister e p endpoint
  | write endpoint raw path value =>
    dsimp only [exec]
    split
    · rename_i err t he
      have hr := value_write_error e p (congrArg (fun r => errorOf r.1) he)
      rw [he] at hr
      exact hr
    rename_i call t he
    have hr := value_write_ok e p (congrArg (fun r => errorOf r.1) he)
    rw [he] at hr
    exact hr
  | read endpoint path =>
    dsimp only [exec]
    split <;> rfl
  | discover =>
    dsimp only [exec, handleDiscover]
    split <;> rfl

/-- A payload and the answer it was given. -/
abbrev Exchange := Bytes × Except Err Bytes

variable (history : List Exchange) (x : Exchange)

def Succeeded (x : Exchange) : Prop := ∃ body, x.2 = .ok body

/-- A `write` of the path succeeded with this value, and neither another one nor a
`deregister` of the endpoint has succeeded since. -/
def LastWritten (value : Bytes) : Prop :=
  ∃ before x after, history = before ++ x :: after ∧ Succeeded x ∧ Writes x.1 e p value ∧
    ∀ y ∈ after, Succeeded y → ¬ Deregisters y.1 e ∧ ∀ v, ¬ Writes y.1 e p v

/-- The same, computed along the history. -/
def noteExchange (last : Option Bytes) (x : Exchange) : Option Bytes :=
  match parseCommand x.1, x.2 with
  | .ok c, .ok _ => note e p last c
  | _, _ => last

def lastWrite : Option Bytes :=
  history.foldl (noteExchange e p) none

theorem lastWrite_concat :
    lastWrite e p (history ++ [x]) = noteExchange e p (lastWrite e p history) x := by
  rw [lastWrite, List.foldl_append]
  rfl

/-- The three things one exchange can do to the value of a path. -/
theorem noteExchange_cases :
    (∃ v, Succeeded x ∧ Writes x.1 e p v ∧ ∀ last, noteExchange e p last x = some v) ∨
    (Succeeded x ∧ Deregisters x.1 e ∧ ∀ last, noteExchange e p last x = none) ∨
    ((Succeeded x → ¬ Deregisters x.1 e ∧ ∀ v, ¬ Writes x.1 e p v) ∧
      ∀ last, noteExchange e p last x = last) := by
  obtain ⟨payload, result⟩ := x
  cases result with
  | error err =>
    refine .inr (.inr ⟨fun ⟨body, hb⟩ => (by cases hb), fun last => ?_⟩)
    unfold noteExchange
    cases parseCommand payload <;> rfl
  | ok body =>
    have hok : Succeeded (payload, .ok body) := ⟨body, rfl⟩
    by_cases hd : Deregisters payload e
    · refine .inr (.inl ⟨hok, hd, fun last => ?_⟩)
      simp only [noteExchange, parseCommand_deregister.mpr hd, note, if_true]
    by_cases hw : ∃ v, Writes payload e p v
    · obtain ⟨v, hv⟩ := hw
      obtain ⟨raw, hparse⟩ := parseCommand_write.mpr hv
      refine .inl ⟨v, hok, hv, fun last => ?_⟩
      simp only [noteExchange, hparse, note, and_self, if_true]
    refine .inr (.inr ⟨fun _ => ⟨hd, fun v hv => hw ⟨v, hv⟩⟩, fun last => ?_⟩)
    unfold noteExchange
    cases hparse : parseCommand payload with
    | error err => rfl
    | ok c =>
      cases c with
      | deregister endpoint =>
        refine if_neg fun he => hd ?_
        exact parseCommand_deregister.mp (he ▸ hparse)
      | write endpoint raw path value =>
        refine if_neg fun ⟨he, hp⟩ => hw ⟨value, ?_⟩
        subst he hp
        exact parseCommand_write.mp ⟨raw, hparse⟩
      | _ => rfl

theorem lastWritten_iff : ∀ v, LastWritten e p history v ↔ lastWrite e p history = some v := by
  induction history using List.reverseRecOn with
  | nil =>
    intro v
    refine ⟨?_, fun h => by cases h⟩
    rintro ⟨before, x, after, h, -⟩
    simp at h
  | append_singleton history y ih =>
    intro v
    rw [lastWrite_concat]
    rcases noteExchange_cases e p y with ⟨w, hok, hw, hnote⟩ | ⟨hok, hd, hnote⟩ | ⟨hother, hnote⟩
    · rw [hnote]
      constructor
      · rintro ⟨before, x, after, h, -, hx, hafter⟩
        rcases split_concat h with ⟨-, rfl, -⟩ | ⟨m, rfl, -⟩
        · obtain ⟨raw, hr⟩ := parseCommand_write.mpr hx
          obtain ⟨raw', hr'⟩ := parseCommand_write.mpr hw
          rw [hr] at hr'
          cases hr'
          rfl
        · exact absurd hw ((hafter y (by simp) hok).2 w)
      · intro h
        cases h
        exact ⟨history, y, [], rfl, hok, hw, by simp⟩
    · rw [hnote]
      refine ⟨?_, fun h => by cases h⟩
      rintro ⟨before, x, after, h, -, hx, hafter⟩
      rcases split_concat h with ⟨-, rfl, -⟩ | ⟨m, rfl, -⟩
      · obtain ⟨raw, hr⟩ := parseCommand_write.mpr hx
        rw [parseCommand_deregister.mpr hd] at hr
        cases hr
      · exact absurd hd (hafter y (by simp) hok).1
    · rw [hnote, ← ih v]
      constructor
      · rintro ⟨before, x, after, h, hxok, hx, hafter⟩
        rcases split_concat h with ⟨-, rfl, -⟩ | ⟨m, rfl, hm⟩
        · exact absurd hx ((hother hxok).2 v)
        · exact ⟨before, x, m, hm, hxok, hx, fun z hz => hafter z (by simp [hz])⟩
      · rintro ⟨before, x, after, rfl, hxok, hx, hafter⟩
        refine ⟨before, x, after ++ [y], by simp, hxok, hx, fun z hz => ?_⟩
        rcases List.mem_append.mp hz with hz | hz
        · exact hafter z hz
        rw [List.mem_singleton.mp hz]
        exact hother

/-! ### Whole runs -/

/-- The server and everything that was asked of it. -/
structure Transcript where
  server : Server
  history : List Exchange

structure TextCall where
  walk : WalkOrder (Int × ObjectDefinition)
  now : Int
  since : Int
  payload : Bytes

def Transcript.answer (t : Transcript) (c : TextCall) : Server.Answer :=
  t.server.handleCoAPPayloadAt c.walk c.now c.since c.payload

/-- Payloads handed to a new server that no object was defined for. -/
def transcripts : Machine Transcript TextCall where
  init t := (∃ opts, t.server = newServer opts) ∧ t.history = []
  step t c := some ⟨(t.answer c).server, t.history ++ [(c.payload, (t.answer c).result)]⟩

/-- No registration runs out. -/
def NothingExpires (t : Transcript) (c : TextCall) : Prop := t.server.Live c.now

instance (t : Transcript) (c : TextCall) : Decidable (NothingExpires t c) :=
  inferInstanceAs (Decidable (t.server.Live c.now))

variable {t : Transcript}

theorem value_answer {c : TextCall} (h : t.server.Live c.now) :
    (t.answer c).server.value e p =
      noteExchange e p (t.server.value e p) (c.payload, (t.answer c).result) := by
  unfold Transcript.answer noteExchange
  rw [Server.handleCoAPPayloadAt_eq]
  cases parseCommand c.payload with
  | error err => rfl
  | ok command =>
    dsimp only [Server.run]
    rw [Server.value_exec _ _ h]
    cases (t.server.exec c.walk c.now c.since command).result <;> rfl

theorem value_eq_lastWrite (h : transcripts.Reaches NothingExpires t) :
    t.server.Consistent ∧ ∀ e p, t.server.value e p = lastWrite e p t.history := by
  refine Machine.Reaches.inv (I := fun t : Transcript => t.server.Consistent ∧
    ∀ e p, t.server.value e p = lastWrite e p t.history) ?_ ?_ h
  · rintro t ⟨⟨opts, hopts⟩, hhist⟩
    have hcons := consistent_newServer opts
    rw [hopts, hhist]
    refine ⟨hcons, fun e p => ?_⟩
    have hempty : ∀ (opts : List ServerOption) (s : Server), s.resources = ∅ →
        (opts.foldl Server.configure s).resources = ∅ := by
      intro opts
      induction opts with
      | nil => intro s hs; exact hs
      | cons opt opts ih =>
        intro s hs
        refine ih _ ?_
        cases opt <;> (dsimp only [Server.configure]; split <;> exact hs)
    unfold Server.value Server.read newServer
    rw [hempty opts .new rfl]
    rfl
  · intro t c u ht hlive hst
    cases hst
    refine ⟨ht.1.call (.handleCoAPPayload c.walk c.now c.since c.payload), fun e p => ?_⟩
    rw [lastWrite_concat, ← ht.2 e p]
    exact value_answer e p hlive

variable {e p}

theorem answer_read {c : TextCall} (h : Reads c.payload e p) : (t.answer c).result =
      match t.server.value e p with
      | none => .error errRegistrationGone
      | some v => .ok v := by
  unfold Transcript.answer
  rw [Server.handleCoAPPayloadAt_eq, parseCommand_read h]
  dsimp only [Server.run, Server.exec, Server.value]
  cases t.server.read e p <;> rfl

theorem registered_of_value {s : Server} (h : s.Consistent) {v : Bytes}
    (hv : s.value e p = some v) : e ∈ s.registrations := by
  rw [← h.same e]
  unfold Server.value Server.read at hv
  split at hv
  · cases hv
  rename_i resources hres
  exact mem_iff_getElem?.mpr ⟨resources, hres⟩

/-- **A `read` answers with the last write.**  For payloads in any number and order,
while no registration runs out and no object is defined: `read e p` succeeds exactly
when `e` is registered and a `write` of the path has succeeded since the last
`deregister` of `e`, and the answer is the value of the last one.  A command that is
neither a `write` of this path nor a `deregister` of `e` leaves the answer as it is.
Slashes around a path and zeros before its numbers make no difference to it. -/
theorem read_lastWritten (t : Transcript) (h : transcripts.Reaches NothingExpires t)
    (c : TextCall) (e : Bytes) (p : ObjectPath) (hread : Reads c.payload e p) :
    ((∃ body, (t.answer c).result = .ok body) ↔
      e ∈ t.server.registrations ∧ ∃ v, LastWritten e p t.history v) ∧
    (∀ body, (t.answer c).result = .ok body → LastWritten e p t.history body) ∧
    (∀ d u, NothingExpires t d → transcripts.step t d = some u → ¬ Deregisters d.payload e →
      (∀ v, ¬ Writes d.payload e p v) → (u.answer c).result = (t.answer c).result) ∧
    (∀ m n raw, parsePath (List.replicate m 0x2f ++ raw ++ List.replicate n 0x2f) =
      parsePath raw) ∧
    (∀ k l m (o i r : Bytes), Digits o → Digits i → Digits r →
      parsePath (pathText (List.replicate k 0x30 ++ o) (List.replicate l 0x30 ++ i)
        (List.replicate m 0x30 ++ r)) = parsePath (pathText o i r)) := by
  obtain ⟨hcons, hvalue⟩ := value_eq_lastWrite h
  have hans : ∀ v, (t.answer c).result = .ok v ↔ t.server.value e p = some v := by
    intro v
    rw [answer_read hread]
    cases t.server.value e p <;> simp
  have hlast : ∀ v, (t.answer c).result = .ok v ↔ LastWritten e p t.history v := by
    intro v
    rw [hans, hvalue, lastWritten_iff]
  refine ⟨?_, fun body hb => (hlast body).mp hb, ?_, parsePath_slashes, ?_⟩
  · constructor
    · rintro ⟨body, hb⟩
      exact ⟨registered_of_value hcons ((hans body).mp hb), body, (hlast body).mp hb⟩
    · rintro ⟨-, v, hv⟩
      exact ⟨v, (hlast v).mpr hv⟩
  · intro d u hlive hst hd hw
    cases hst
    have hsame : (t.answer d).server.value e p = t.server.value e p := by
      rw [value_answer e p hlive]
      rcases noteExchange_cases e p (d.payload, (t.answer d).result) with
        ⟨v, -, hv, -⟩ | ⟨-, hdd, -⟩ | ⟨-, hnote⟩
      · exact absurd hv (hw v)
      · exact absurd hdd hd
      · exact hnote _
    rw [answer_read hread, answer_read hread, hsame]
  · intro k l m o i r ho hi hr
    exact parsePath_zeros k l m ho hi hr

def textCall (now : Int) (payload : String) : TextCall := ⟨.id, now, now, ascii payload⟩

/-- Two writes of one path under two of its texts, and a write for another endpoint. -/
def writeTwice : List TextCall :=
  [textCall 0 "register e 60", textCall 1 "register f 60", textCall 2 "write e /3/0/01 first",
    textCall 3 "write e 3/0/1/ last  of   all", textCall 4 "write f /3/0/1 other"]

theorem read_lastWritten_writeTwice :
    ∃ t, transcripts.Reaches NothingExpires t ∧
      (t.answer (textCall 5 "READ e /3/0/1")).result = .ok (ascii "last of all") ∧
      LastWritten (ascii "e") ⟨3, 0, 1⟩ t.history (ascii "last of all") := by
  have hrun : ((transcripts.runIf NothingExpires ⟨newServer [], []⟩ writeTwice).map fun t =>
      (t.answer (textCall 5 "READ e /3/0/1")).result.toOption) =
      some (some (ascii "last of all")) := by
    decide +kernel
  obtain ⟨t, hreach, hans⟩ := Machine.exists_reaches hrun ⟨⟨[], rfl⟩, rfl⟩
  have hread : Reads (textCall 5 "READ e /3/0/1").payload (ascii "e") ⟨3, 0, 1⟩ :=
    ⟨ascii "READ", ascii "/3/0/1", by decide +kernel, by decide +kernel, by decide +kernel⟩
  have hok : (t.answer (textCall 5 "READ e /3/0/1")).result = .ok (ascii "last of all") := by
    cases hr : (t.answer (textCall 5 "READ e /3/0/1")).result with
    | error err =>
      rw [hr] at hans
      cases hans
    | ok body =>
      rw [hr] at hans
      exact congrArg _ (Option.some.inj hans)
  exact ⟨t, hreach, hok, (read_lastWritten t hreach _ _ _ hread).2.1 _ hok⟩

end SharkSocket.Lwm2m
