import SharkSocket.Core
import SharkSocket.Lib.Machine
import SharkSocket.Lib.Pool

/-!
# `infra/circuitbreaker`: `Breaker`

`Allow`, `Success` and `Failure` each run under the breaker's lock, so each is
one function of the breaker and the time.  The completions carry no identity:
the breaker cannot tell whose result it is given.

A `Breaking` is a breaker with every request made of it so far.  A request is a
call of `Execute`, or a caller that does the same by hand: it is admitted or
refused by `Allow`, runs, and reports once, by `Success` after a result and by
`Failure` after an error or a panic.  Requests overlap in any order and time
passes between any two steps.  How a request was admitted is kept beside it: while
the breaker was closed, or as a probe, with the number of the opening before it.

`Sound` is what holds in every state: `halfOpenActive` is the same as being
half-open, and the probe admitted since the latest opening is then still under
way.  So the breaker is never wedged (`breaker_never_wedged`).
-/

namespace SharkSocket.Infra

open Lib

inductive State
  | closed
  | opened
  | halfOpen
  deriving DecidableEq, Repr

def errOpen : Err := .other "circuit breaker open"

/-- Times and durations are in nanoseconds. -/
structure Breaker where
  state : State
  failures : Int
  threshold : Int
  openedAt : Int
  timeout : Int
  halfOpenActive : Bool
  deriving DecidableEq, Repr

namespace Breaker

variable (b : Breaker)

def new (threshold timeout : Int) : Breaker where
  state := .closed
  failures := 0
  threshold := if threshold ≤ 0 then 1 else threshold
  openedAt := 0
  timeout := if timeout ≤ 0 then 1000000000 else timeout
  halfOpenActive := false

/-- The second half of `Allow`, once an open window that is over has ended. -/
def letThrough : Option Err × Breaker :=
  if b.state = .halfOpen then
    if b.halfOpenActive then (some errOpen, b) else (none, { b with halfOpenActive := true })
  else (none, b)

def allow (now : Int) : Option Err × Breaker :=
  if b.state = .opened then
    if b.timeout ≤ now - b.openedAt then { b with state := .halfOpen }.letThrough
    else (some errOpen, b)
  else b.letThrough

def success : Breaker :=
  -- a success reported while open is stale
  if b.state = .opened then b
  else { b with failures := 0, state := .closed, halfOpenActive := false }

def failure (now : Int) : Breaker :=
  if b.state = .opened then b
  else if b.threshold ≤ b.failures + 1 then
    { b with
      failures := b.failures + 1
      halfOpenActive := false
      state := .opened
      openedAt := now }
  else { b with failures := b.failures + 1, halfOpenActive := false }

/-- What `Execute` calls when `fn` is back: a panic counts as a failure. -/
def report (now : Int) : Outcome → Breaker
  | .ok => b.success
  | .err _ => b.failure now
  | .panic => b.failure now

end Breaker

inductive Admission
  | refused
  | closed
  | probe (opening : Nat)
  deriving DecidableEq, Repr

/-- `Execute`: in `fn`; with `fn` back, before `Success` or `Failure`; and done. -/
inductive ExecutePc
  | running
  | reporting (o : Outcome)
  | returned (o : Outcome)
  deriving DecidableEq, Repr

structure Request where
  admission : Admission
  pc : ExecutePc
  deriving DecidableEq, Repr

/-- Admitted, and neither `Success` nor `Failure` has been called for it. -/
def Request.inFlight (r : Request) : Bool :=
  match r.pc with
  | .running | .reporting _ => true
  | .returned _ => false

/-- `openings` counts how often the breaker has gone to open. -/
structure Breaking where
  breaker : Breaker
  now : Int
  openings : Nat
  requests : List Request
  deriving DecidableEq, Repr

inductive BreakAct
  | advance (d : Nat)
  | allow
  | finish (n : Nat) (o : Outcome)
  | report (n : Nat)
  deriving DecidableEq, Repr

namespace Breaking

variable (s : Breaking)

/-- The request after its `Allow`, which left the breaker in `state`. -/
def admitted (err : Option Err) (state : State) : Request :=
  match err with
  | some e => ⟨.refused, .returned (.err e)⟩
  | none => ⟨if state = .halfOpen then .probe s.openings else .closed, .running⟩

def stepAllow : Breaking :=
  let (err, b) := s.breaker.allow s.now
  { s with breaker := b, requests := s.requests ++ [s.admitted err b.state] }

def stepReport (n : Nat) (r : Request) (o : Outcome) : Breaking :=
  let b := s.breaker.report s.now o
  { s with
    breaker := b
    openings := if s.breaker.state ≠ .opened ∧ b.state = .opened then s.openings + 1
      else s.openings
    requests := s.requests.set n { r with pc := .returned o } }

def step : BreakAct → Option Breaking
  | .advance d => some { s with now := s.now + d }
  | .allow => some s.stepAllow
  | .finish n o =>
    match s.requests[n]? with
    | some ⟨admission, .running⟩ =>
      some { s with requests := s.requests.set n ⟨admission, .reporting o⟩ }
    | _ => none
  | .report n =>
    match s.requests[n]? with
    | some ⟨admission, .reporting o⟩ => some (s.stepReport n ⟨admission, .reporting o⟩ o)
    | _ => none

end Breaking

def breaking (threshold timeout : Int) : Machine Breaking BreakAct where
  init s := ∃ now, s = ⟨.new threshold timeout, now, 0, []⟩
  step := Breaking.step

/-! ### What each call does -/

namespace Breaker

variable {b : Breaker} {now : Int}

theorem allow_closed (h : b.state = .closed) : b.allow now = (none, b) := by
  simp [allow, letThrough, h]

theorem allow_waiting (h : b.state = .opened) (hnow : now - b.openedAt < b.timeout) :
    b.allow now = (some errOpen, b) := by
  rw [allow, if_pos h, if_neg (by omega)]

theorem allow_over (h : b.state = .opened) (hnow : b.timeout ≤ now - b.openedAt)
    (ha : b.halfOpenActive = false) :
    b.allow now = (none, { b with state := .halfOpen, halfOpenActive := true }) := by
  rw [allow, if_pos h, if_pos hnow]
  simp [letThrough, ha]

theorem allow_probing (h : b.state = .halfOpen) (ha : b.halfOpenActive = true) :
    b.allow now = (some errOpen, b) := by
  simp [allow, letThrough, h, ha]

theorem report_opened (h : b.state = .opened) (o : Outcome) : b.report now o = b := by
  cases o <;> simp [report, success, failure, h]

theorem success_eq (h : b.state ≠ .opened) :
    b.success = { b with failures := 0, state := .closed, halfOpenActive := false } :=
  if_neg h

theorem failure_opens (h : b.state ≠ .opened) (hf : b.threshold ≤ b.failures + 1) :
    b.failure now = { b with
      failures := b.failures + 1, halfOpenActive := false, state := .opened, openedAt := now } := by
  rw [failure, if_neg h, if_pos hf]

theorem failure_counts (h : b.state ≠ .opened) (hf : b.failures + 1 < b.threshold) :
    b.failure now = { b with failures := b.failures + 1, halfOpenActive := false } := by
  rw [failure, if_neg h, if_neg (by omega)]

/-- The breaker's own part of the invariant. -/
structure Sound (b : Breaker) : Prop where
  active : b.halfOpenActive = true ↔ b.state = .halfOpen
  tripped : b.state ≠ .closed → b.threshold ≤ b.failures
  below : b.state = .closed → b.failures < b.threshold
  threshold_pos : 0 < b.threshold

theorem sound_new (threshold timeout : Int) : (new threshold timeout).Sound := by
  have hpos : 0 < (new threshold timeout).threshold := by
    dsimp only [new]
    split <;> omega
  exact ⟨by simp [new], fun h => absurd rfl h, fun _ => hpos, hpos⟩

variable (b now) in
/-- **The four ways through `Allow`**, for a sound breaker. -/
inductive Allowed : Option Err × Breaker → Prop
  | closed (h : b.state = .closed) : Allowed (none, b)
  | waiting (h : b.state = .opened) (hnow : now - b.openedAt < b.timeout) : Allowed (some errOpen, b)
  | probe (h : b.state = .opened) (hnow : b.timeout ≤ now - b.openedAt) :
      Allowed (none, { b with state := .halfOpen, halfOpenActive := true })
  | probing (h : b.state = .halfOpen) : Allowed (some errOpen, b)

theorem Sound.allowed (h : b.Sound) {r : Option Err × Breaker} (hr : b.allow now = r) :
    Allowed b now r := by
  subst hr
  cases hs : b.state with
  | closed =>
    rw [allow_closed hs]
    exact .closed hs
  | opened =>
    by_cases hnow : b.timeout ≤ now - b.openedAt
    · have ha : b.halfOpenActive = false := by
        rw [Bool.eq_false_iff, Ne, h.active, hs]
        decide
      rw [allow_over hs hnow ha]
      exact .probe hs hnow
    rw [allow_waiting hs (by omega)]
    exact .waiting hs (by omega)
  | halfOpen =>
    rw [allow_probing hs (h.active.mpr hs)]
    exact .probing hs

theorem Sound.allow (h : b.Sound) (now : Int) : (b.allow now).2.Sound := by
  generalize hr : b.allow now = r
  cases h.allowed hr with
  | closed | waiting | probing => exact h
  | probe hs =>
    exact ⟨by simp, fun _ => h.tripped (by rw [hs]; decide), fun hc => (by cases hc),
      h.threshold_pos⟩

variable (b now) in
/-- **The ways through `Success` and `Failure`**, for a sound breaker.  A result
always ends the half-open state. -/
inductive Reported : Outcome → Breaker → Prop
  | stale (h : b.state = .opened) (o : Outcome) : Reported o b
  | closes (h : b.state ≠ .opened) :
      Reported .ok { b with failures := 0, state := .closed, halfOpenActive := false }
  | opens {o : Outcome} (h : b.state ≠ .opened) (ho : o ≠ .ok)
      (hf : b.threshold ≤ b.failures + 1) :
      Reported o { b with
        failures := b.failures + 1, halfOpenActive := false, state := .opened, openedAt := now }
  | counts {o : Outcome} (h : b.state = .closed) (ho : o ≠ .ok)
      (hf : b.failures + 1 < b.threshold) :
      Reported o { b with failures := b.failures + 1, halfOpenActive := false }

/-- No result leaves the breaker half-open. -/
theorem Reported.not_halfOpen {b' : Breaker} {o : Outcome} (h : Reported b now o b') :
    b'.state ≠ .halfOpen := by
  cases h with
  | stale h => rw [h]; decide
  | closes | opens => exact State.noConfusion
  | counts h =>
    rw [h]
    decide

theorem Sound.reported (h : b.Sound) {o : Outcome} {b' : Breaker} (hb : b.report now o = b') :
    Reported b now o b' := by
  subst hb
  by_cases hs : b.state = .opened
  · rw [report_opened hs]
    exact .stale hs o
  have hfailure : ∀ o, o ≠ .ok → Reported b now o (b.failure now) := by
    intro o ho
    by_cases hf : b.threshold ≤ b.failures + 1
    · rw [failure_opens hs hf]
      exact .opens hs ho hf
    rw [failure_counts hs (by omega)]
    refine .counts ?_ ho (by omega)
    by_contra hc
    have := h.tripped hc
    omega
  cases o with
  | ok =>
    rw [report, success_eq hs]
    exact .closes hs
  | err e | panic => exact hfailure _ (by simp)

theorem Sound.report (h : b.Sound) (now : Int) (o : Outcome) : (b.report now o).Sound := by
  generalize hb : b.report now o = b'
  cases h.reported hb with
  | stale => exact h
  | closes => exact ⟨by simp, fun hc => absurd rfl hc, fun _ => h.threshold_pos, h.threshold_pos⟩
  | opens _ _ hf => exact ⟨by simp, fun _ => hf, fun hc => (by cases hc), h.threshold_pos⟩
  | counts hs _ hf => exact ⟨by simp [hs], fun hc => absurd hs hc, fun _ => hf, h.threshold_pos⟩

end Breaker

/-! ### The invariant of all requests -/

namespace Breaking

variable {s t : Breaking}

/-- **The steps**, each with what it does to the requests. -/
inductive Step (s : Breaking) : BreakAct → Breaking → Prop
  | advance (d : Nat) : Step s (.advance d) { s with now := s.now + d }
  | allow : Step s .allow s.stepAllow
  | finish {n : Nat} {admission : Admission} (h : s.requests[n]? = some ⟨admission, .running⟩)
      (o : Outcome) :
      Step s (.finish n o) { s with requests := s.requests.set n ⟨admission, .reporting o⟩ }
  | report {n : Nat} {admission : Admission} {o : Outcome}
      (h : s.requests[n]? = some ⟨admission, .reporting o⟩) :
      Step s (.report n) (s.stepReport n ⟨admission, .reporting o⟩ o)

theorem step_cases {a : BreakAct} (h : s.step a = some t) : Step s a t := by
  cases a with
  | advance d =>
    cases h
    exact .advance d
  | allow =>
    cases h
    exact .allow
  | finish n o =>
    simp only [step] at h
    split at h
    · rename_i hr
      cases h
      exact .finish hr o
    · cases h
  | report n =>
    simp only [step] at h
    split at h
    · rename_i hr
      cases h
      exact .report hr
    · cases h

/-- Some request admitted as the probe of the latest opening is under way. -/
def ProbeUnderWay (s : Breaking) : Prop :=
  ∃ r ∈ s.requests, r.admission = .probe s.openings ∧ r.inFlight = true

structure Sound (s : Breaking) : Prop where
  breaker : s.breaker.Sound
  probe : s.breaker.state = .halfOpen → s.ProbeUnderWay

theorem Sound.stepAllow (h : s.Sound) : s.stepAllow.Sound := by
  refine ⟨h.breaker.allow s.now, ?_⟩
  unfold Breaking.stepAllow
  generalize hr : s.breaker.allow s.now = r
  cases h.breaker.allowed hr with
  | closed hs | waiting hs =>
    intro hc
    rw [hs] at hc
    cases hc
  | probe =>
    intro _
    exact ⟨_, List.mem_append_right _ (List.mem_singleton_self _), rfl, rfl⟩
  | probing hs =>
    intro _
    obtain ⟨r, hr, hp⟩ := h.probe hs
    exact ⟨r, List.mem_append_left _ hr, hp⟩

theorem Sound.finish {n : Nat} {admission : Admission} (h : s.Sound)
    (hr : s.requests[n]? = some ⟨admission, .running⟩) (o : Outcome) :
    Sound { s with requests := s.requests.set n ⟨admission, .reporting o⟩ } := by
  refine ⟨h.breaker, fun hs => ?_⟩
  obtain ⟨r, hmem, hp, hf⟩ := h.probe hs
  obtain ⟨m, hm⟩ := List.mem_iff_getElem?.mp hmem
  by_cases hmn : n = m
  · subst hmn
    rw [hr] at hm
    cases hm
    refine ⟨⟨admission, .reporting o⟩, ?_, hp, rfl⟩
    exact List.mem_set (List.getElem?_eq_some_iff.mp hr).1 _
  refine ⟨r, List.mem_iff_getElem?.mpr ⟨m, ?_⟩, hp, hf⟩
  rw [List.getElem?_set_ne hmn]
  exact hm

theorem Sound.step {a : BreakAct} (h : s.Sound) (hs : s.step a = some t) : t.Sound := by
  cases step_cases hs with
  | advance d => exact ⟨h.breaker, h.probe⟩
  | allow => exact h.stepAllow
  | finish hr o => exact h.finish hr o
  | @report n admission o hr =>
    exact ⟨h.breaker.report s.now o, fun hc => absurd hc (h.breaker.reported rfl).not_halfOpen⟩

theorem sound_of_reaches {threshold timeout : Int} {ok : Breaking → BreakAct → Prop}
    (h : (breaking threshold timeout).Reaches ok s) : s.Sound := by
  refine h.inv ?_ ?_
  · rintro _ ⟨now, rfl⟩
    exact ⟨Breaker.sound_new threshold timeout, fun hc => by cases hc⟩
  · intro s a t hs _ hst
    exact hs.step hst

theorem openedAt_step {a : BreakAct} (hs : s.breaker.state = .opened)
    (hnow : s.now - s.breaker.openedAt < s.breaker.timeout) (hst : s.step a = some t) :
    t.breaker.state = .opened ∧ t.breaker.openedAt = s.breaker.openedAt := by
  cases step_cases hst with
  | advance | finish => exact ⟨hs, rfl⟩
  | allow =>
    rw [stepAllow, Breaker.allow_waiting hs hnow]
    exact ⟨hs, rfl⟩
  | report =>
    rw [stepReport, Breaker.report_opened hs]
    exact ⟨hs, rfl⟩

end Breaking

/-- **The breaker is never wedged and never leaks.** -/
theorem breaker_never_wedged (threshold timeout : Int) (s : Breaking)
    (h : (breaking threshold timeout).Reachable s) :
    (s.breaker.halfOpenActive = true → s.breaker.state = .halfOpen ∧ s.ProbeUnderWay) ∧
    (s.breaker.state = .opened → s.breaker.threshold ≤ s.breaker.failures) ∧
    (s.breaker.state = .opened → s.now - s.breaker.openedAt < s.breaker.timeout →
      s.breaker.allow s.now = (some errOpen, s.breaker) ∧
      ∀ a t, s.step a = some t → t.breaker.openedAt = s.breaker.openedAt) := by
  have hs := Breaking.sound_of_reaches h
  refine ⟨fun ha => ?_, fun ho => ?_, fun ho hnow => ⟨?_, fun a t hst => ?_⟩⟩
  · have hhalf := hs.breaker.active.mp ha
    exact ⟨hhalf, hs.probe hhalf⟩
  · exact hs.breaker.tripped (by rw [ho]; decide)
  · exact Breaker.allow_waiting ho hnow
  · exact (Breaking.openedAt_step ho hnow hst).2

def startedAt (now : Int) : Breaking := ⟨.new 1 10, now, 0, []⟩

/-- A first request fails, and after the open window a second one is let in. -/
def failThenProbe : List BreakAct :=
  [.allow, .finish 0 .panic, .report 0, .advance 10, .allow]

theorem breaker_never_wedged_failThenProbe :
    ∃ s, (breaking 1 10).Reachable s ∧ s.breaker.halfOpenActive = true ∧ s.ProbeUnderWay := by
  have hrun : ((breaking 1 10).run (startedAt 0) failThenProbe).map
      (·.breaker.halfOpenActive) = some true := by decide
  obtain ⟨s, hr, ha⟩ := Machine.exists_reachable hrun ⟨0, rfl⟩
  exact ⟨s, hr, ha, ((breaker_never_wedged 1 10 s hr).1 ha).2⟩

end SharkSocket.Infra
