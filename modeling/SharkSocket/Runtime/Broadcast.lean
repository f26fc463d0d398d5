import SharkSocket.Runtime.SessionManager

/-!
# `SessionManager.Broadcast`

One call walks a snapshot, splits it into sessions that take a shared frame
and sessions that do not, and calls each list in turn.  What a call into a
session returns is the session's own affair, so it is a parameter: `Env` gives
the outcome of a call from the calls made before it.

`calls_broadcast` is the list of calls it makes.  With two sharers or more it
is one `SendShared` per sharer and one `Send` per plain session.  With fewer,
the plain list is extended by the *whole* snapshot, so a plain session is
called a second time.  `broadcast_once_iff` says that this is the only way a
session of the snapshot is not called exactly once.
-/

namespace SharkSocket.Runtime

open Lib

inductive Call
  | send (sess : Session) (data : Bytes)
  | sendShared (sess : Session) (frame : Bytes)
  deriving DecidableEq, Repr

def Call.session : Call → Session
  | .send s _ => s
  | .sendShared s _ => s

def Call.payload : Call → Bytes
  | .send _ d => d
  | .sendShared _ d => d

abbrev Env := List (Call × Outcome) → Call → Outcome

/-- `safeSessionCall`: the error of a call, a panic being `ErrHandlerPanic`. -/
def safeSessionCall : Outcome → Option Err
  | .ok => none
  | .err e => some e
  | .panic => some .handlerPanic

/-- The local variables of `Broadcast`, and the calls made so far. -/
structure Progress where
  calls : List (Call × Outcome)
  frame : Option SharedFrame
  firstErr : Option Err
  deriving DecidableEq

namespace Progress

def record (env : Env) (p : Progress) (c : Call) : Progress :=
  { p with
    calls := p.calls ++ [(c, env p.calls c)]
    firstErr := p.firstErr <|> safeSessionCall (env p.calls c) }

def share (env : Env) (frame : SharedFrame) (p : Progress) (ss : Session) : Progress :=
  let c := Call.sendShared ss frame.payload
  let q := p.record env c
  -- `SendShared` only takes the reference over when it succeeds
  if (safeSessionCall (env p.calls c)).isSome then
    { q with frame := q.frame.map SharedFrame.release }
  else q

def send (env : Env) (data : Bytes) (p : Progress) (sess : Session) : Progress :=
  p.record env (.send sess data)

end Progress

/-- `Broadcast` on the sessions of its snapshot. -/
def broadcast (env : Env) (sessions : List Session) (data : Bytes) : Progress :=
  let shared := sessions.filter (·.sharedSender)
  let plain := sessions.filter (!·.sharedSender)
  if 1 < shared.length then
    let frame := newSharedFrame data shared.length
    let p := shared.foldl (Progress.share env frame) ⟨[], some frame, none⟩
    plain.foldl (Progress.send env data) p
  else
    -- `plain = append(plain, sessions...)`
    (plain ++ sessions).foldl (Progress.send env data) ⟨[], none, none⟩

/-! ### The calls it makes -/

def Extends (p : Progress) (c : Call) (q : Progress) : Prop :=
  ∃ r, q.calls = p.calls ++ [(c, r)] ∧ q.firstErr = (p.firstErr <|> safeSessionCall r)

variable (env : Env) (sessions : List Session) (data : Bytes)

theorem extends_send (p : Progress) (s : Session) :
    Extends p (.send s data) (p.send env data s) := ⟨_, rfl, rfl⟩

theorem extends_share (frame : SharedFrame) (p : Progress) (s : Session) :
    Extends p (.sendShared s frame.payload) (p.share env frame s) := by
  refine ⟨env p.calls (.sendShared s frame.payload), ?_, ?_⟩
  · rw [Progress.share]
    split <;> rfl
  · rw [Progress.share]
    split <;> rfl

def Honest (p : Progress) : Prop :=
  p.firstErr.isSome ↔ ∃ x ∈ p.calls, (safeSessionCall x.2).isSome

theorem Extends.honest {p q : Progress} {c : Call} (h : Extends p c q) (hp : Honest p) :
    Honest q := by
  obtain ⟨r, hc, he⟩ := h
  rw [Honest, hc, he]
  simp only [List.mem_append, List.mem_singleton, or_and_right, exists_or, exists_eq_left]
  rw [Honest] at hp
  rw [← hp]
  cases p.firstErr <;> simp

/-- **One pass over a list of sessions** makes one call each, in order, and
keeps the error honest. -/
theorem foldl_extends {f : Progress → Session → Progress} {mk : Session → Call}
    (hf : ∀ p s, Extends p (mk s) (f p s)) : ∀ (l : List Session) (p : Progress), Honest p →
      (l.foldl f p).calls.map Prod.fst = p.calls.map Prod.fst ++ l.map mk ∧
        Honest (l.foldl f p) := by
  intro l
  induction l with
  | nil => intro p hp; exact ⟨by simp, hp⟩
  | cons s l ih =>
    intro p hp
    obtain ⟨h1, h2⟩ := ih (f p s) ((hf p s).honest hp)
    obtain ⟨r, hc, -⟩ := hf p s
    refine ⟨?_, h2⟩
    rw [List.foldl_cons, h1, hc]
    simp

theorem honest_start (frame : Option SharedFrame) : Honest ⟨[], frame, none⟩ := by
  simp [Honest]

theorem calls_broadcast :
    (broadcast env sessions data).calls.map Prod.fst =
      if 1 < (sessions.filter (·.sharedSender)).length then
        (sessions.filter (·.sharedSender)).map (Call.sendShared · data) ++
          (sessions.filter (!·.sharedSender)).map (Call.send · data)
      else (sessions.filter (!·.sharedSender) ++ sessions).map (Call.send · data) := by
  rw [broadcast]
  split
  · obtain ⟨h1, h2⟩ := foldl_extends
      (extends_share env (newSharedFrame data (sessions.filter (·.sharedSender)).length))
      (sessions.filter (·.sharedSender)) _ (honest_start _)
    rw [(foldl_extends (extends_send env data) _ _ h2).1, h1]
    rfl
  rw [(foldl_extends (extends_send env data) _ _ (honest_start none)).1]
  rfl

/-- **The returned error is non-nil iff some call failed.** -/
theorem honest_broadcast : Honest (broadcast env sessions data) := by
  rw [broadcast]
  split
  · exact (foldl_extends (extends_send env data) _ _
      (foldl_extends (extends_share env _) _ _ (honest_start _)).2).2
  · exact (foldl_extends (extends_send env data) _ _ (honest_start none)).2

/-! ### Exactly once -/

def Progress.handed (p : Progress) (s : Session) : List Bytes :=
  ((p.calls.map Prod.fst).filter (·.session = s)).map Call.payload

/-- **Every session of the snapshot is handed the data exactly once**, by one
`Send` or one `SendShared`, and the error is set iff some delivery failed. -/
def DeliversOnce (sessions : List Session) (data : Bytes) (p : Progress) : Prop :=
  (∀ s ∈ sessions, p.handed s = [data]) ∧ Honest p

theorem payloads_map {f : Session → Call} {data : Bytes} (hs : ∀ t, (f t).session = t)
    (hd : ∀ t, (f t).payload = data) (s : Session) (l : List Session) :
    ((l.map f).filter (·.session = s)).map Call.payload = List.replicate (l.count s) data := by
  induction l with
  | nil => rfl
  | cons a l ih =>
    rw [List.map_cons, List.filter_cons, List.count_cons, hs]
    by_cases h : a = s
    · rw [if_pos (by simpa using h), if_pos (by simpa using h), List.map_cons, ih, hd,
        List.replicate_succ]
    · rw [if_neg (by simpa using h), if_neg (by simpa using h), ih, Nat.add_zero]

theorem handed_broadcast (s : Session) :
    (broadcast env sessions data).handed s = List.replicate
      (if 1 < (sessions.filter (·.sharedSender)).length then sessions.count s
        else (sessions.filter (!·.sharedSender)).count s + sessions.count s) data := by
  rw [Progress.handed, calls_broadcast]
  split
  · have hp :
        (sessions.filter (·.sharedSender) ++ sessions.filter (!·.sharedSender)).Perm sessions :=
      List.filter_append_perm _ sessions
    rw [List.filter_append, List.map_append,
      payloads_map (f := (Call.sendShared · data)) (fun _ => rfl) (fun _ => rfl),
      payloads_map (f := (Call.send · data)) (fun _ => rfl) (fun _ => rfl),
      List.replicate_append_replicate, ← List.count_append, hp.count_eq]
  · rw [payloads_map (f := (Call.send · data)) (fun _ => rfl) (fun _ => rfl), List.count_append]

/-- **A broadcast delivers exactly once iff** its snapshot holds two sharers or
more, or holds no plain session at all. -/
theorem broadcast_once_iff (view : View) (walk : Fin sessionShards → WalkOrder (UInt64 × Session))
    (env : Env) (data : Bytes) :
    DeliversOnce (snapshot view walk) data (broadcast env (snapshot view walk) data) ↔
      2 ≤ ((snapshot view walk).filter (·.sharedSender)).length ∨
        ∀ s ∈ snapshot view walk, s.sharedSender = true := by
  have hnd := nodup_snapshot view walk
  generalize snapshot view walk = l at hnd ⊢
  have hcount : ∀ s ∈ l, l.count s = 1 := fun s hs => List.count_eq_one_of_mem hnd hs
  rw [DeliversOnce, and_iff_left (honest_broadcast env l data)]
  simp only [handed_broadcast]
  constructor
  · intro h
    by_contra hn
    rw [not_or] at hn
    obtain ⟨hlt, hplain⟩ := hn
    push Not at hplain
    obtain ⟨s, hs, hsh⟩ := hplain
    have hmem : s ∈ l.filter (!·.sharedSender) := by simp [hs, hsh]
    have hpos := List.count_pos_iff.mpr hmem
    have h1 := congrArg List.length (h s hs)
    rw [if_neg (by omega), List.length_replicate, hcount s hs, List.length_singleton] at h1
    omega
  · intro h s hs
    rcases h with h | h
    · rw [if_pos (by omega), hcount s hs]
      rfl
    · have hnil : l.filter (!·.sharedSender) = [] := by
        rw [List.filter_eq_nil_iff]
        intro t ht
        simp [h t ht]
      rw [hnil, hcount s hs]
      simp

def onePlain : View := Function.update Shard.empty (shardOf 1) ((Shard.empty _).insert ⟨1, false⟩ rfl)

/-- The one registered session does not implement `SharedSender`: it receives
the payload twice. -/
theorem broadcast_twice_to_one_plain :
    ¬ DeliversOnce (snapshot onePlain fun _ => WalkOrder.id) [7]
      (broadcast (fun _ _ => .ok) (snapshot onePlain fun _ => WalkOrder.id) [7]) := by
  have hm : (⟨1, false⟩) ∈ snapshot onePlain fun _ => WalkOrder.id := by decide
  intro hd
  have := hd.1 _ hm
  exact absurd this (by decide)

end SharkSocket.Runtime
