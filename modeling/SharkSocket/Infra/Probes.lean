import SharkSocket.Infra.CircuitBreaker

/-!
# Probes of the circuit breaker

While the breaker is half-open one request is the probe, and its result is meant
to decide.  `Success` and `Failure` take any result for the probe's: a request
that was admitted while the breaker was closed, and that is still running when
the window is over, closes the breaker (`stale_success_closes`) or lets a second
probe in beside the first (`stale_failure_two_probes`).

`NoStale` excludes such a result.  In runs that meet it the probe is alone
(`Sole`), and only its result closes the breaker.  The condition cannot be
weakened: from any step that does not meet it some run goes wrong, on both counts
(`closed_by_latest_probe`, `at_most_one_probe`).
-/

namespace SharkSocket.Infra

open Lib

def Request.isProbe (r : Request) : Bool :=
  match r.admission with
  | .probe _ => true
  | _ => false

namespace Breaking

variable {s t : Breaking} {threshold timeout : Int}

/-- No request admitted while the breaker was closed reports while it is half-open. -/
def NoStale (s : Breaking) (a : BreakAct) : Prop :=
  match a with
  | .report n =>
    s.breaker.state = .halfOpen → s.requests[n]?.map Request.admission ≠ some .closed
  | _ => True

instance (s : Breaking) (a : BreakAct) : Decidable (s.NoStale a) :=
  match a with
  | .report _ => inferInstanceAs (Decidable (_ → _))
  | .advance _ | .allow | .finish _ _ => inferInstanceAs (Decidable True)

def AtMostOneProbe (s : Breaking) : Prop :=
  ∀ (m n : Nat) (q r : Request), s.requests[m]? = some q → s.requests[n]? = some r →
    q.isProbe = true → r.isProbe = true → q.inFlight = true → r.inFlight = true → m = n

/-- The action is the result of the probe that was admitted after the latest opening. -/
def ByLatestProbe (s : Breaking) (a : BreakAct) : Prop :=
  ∃ n r, a = .report n ∧ s.requests[n]? = some r ∧ r.admission = .probe s.openings

structure Closes (s : Breaking) (a : BreakAct) (t : Breaking) : Prop where
  step : s.step a = some t
  before : s.breaker.state = .halfOpen
  after : t.breaker.state = .closed

variable {r : Request} {admission : Admission} {n : Nat} {a : BreakAct}

theorem isProbe_iff : r.isProbe = true ↔ ∃ k, r.admission = .probe k := by
  unfold Request.isProbe
  split
  · rename_i k hk
    exact ⟨fun _ => ⟨k, hk⟩, fun _ => rfl⟩
  rename_i hne
  exact ⟨fun h => (by cases h), fun ⟨k, hk⟩ => absurd hk (hne k)⟩

/-! ### The probe alone -/

/-- What `NoStale` runs keep: a request that was refused is not under way, and a
probe that is under way is the only one, of the latest opening, and the breaker is
still half-open. -/
structure Sole (s : Breaking) : Prop where
  admitted : ∀ r ∈ s.requests, r.inFlight = true → r.admission ≠ .refused
  current : ∀ r ∈ s.requests, r.inFlight = true → ∀ k, r.admission = .probe k →
    k = s.openings ∧ s.breaker.state = .halfOpen
  one : s.AtMostOneProbe

theorem Sole.none_under_way (h : s.Sole) (hs : s.breaker.state ≠ .halfOpen) :
    ∀ r ∈ s.requests, r.inFlight = true → r.isProbe = false := by
  intro r hr hf
  rw [Bool.eq_false_iff]
  intro hp
  obtain ⟨k, hk⟩ := isProbe_iff.mp hp
  exact hs (h.current r hr hf k hk).2

/-- A request that joins, and is not a probe under way, changes nothing. -/
theorem Sole.concat (h : s.Sole) (hrefused : r.inFlight = true → r.admission ≠ .refused)
    (hr : r.inFlight = true → r.isProbe = false) :
    Sole { s with requests := s.requests ++ [r] } := by
  refine ⟨forall_mem_concat h.admitted hrefused, forall_mem_concat h.current ?_, ?_⟩
  · intro hf k hk
    rw [isProbe_iff.mpr ⟨k, hk⟩] at hr
    cases hr hf
  · intro m n p q hm hn hpp hqp hpf hqf
    rcases getElem?_concat_eq_some.mp hm with hm | ⟨-, rfl⟩
    · rcases getElem?_concat_eq_some.mp hn with hn | ⟨-, rfl⟩
      · exact h.one m n p q hm hn hpp hqp hpf hqf
      rw [hr hqf] at hqp
      cases hqp
    rw [hr hpf] at hpp
    cases hpp

/-- The probe that ends an open window is alone. -/
theorem Sole.probe (h : s.Sole) (hs : s.breaker.state = .opened) (b : Breaker)
    (hb : b.state = .halfOpen) :
    Sole { s with breaker := b, requests := s.requests ++ [⟨.probe s.openings, .running⟩] } := by
  have hnone := h.none_under_way (by rw [hs]; decide)
  have hold : ∀ q ∈ s.requests, q.inFlight = true → q.isProbe = true → False := by
    intro q hq hf hp
    rw [hnone q hq hf] at hp
    cases hp
  refine ⟨forall_mem_concat h.admitted fun _ => Admission.noConfusion, forall_mem_concat ?_ ?_, ?_⟩
  · intro q hq hf k hk
    exact (hold q hq hf (isProbe_iff.mpr ⟨k, hk⟩)).elim
  · rintro - k ⟨⟩
    exact ⟨rfl, hb⟩
  · intro m n p q hm hn hpp hqp hpf hqf
    rcases getElem?_concat_eq_some.mp hm with hm | ⟨rfl, rfl⟩
    · exact (hold p (List.mem_of_getElem? hm) hpf hpp).elim
    rcases getElem?_concat_eq_some.mp hn with hn | ⟨rfl, -⟩
    · exact (hold q (List.mem_of_getElem? hn) hqf hqp).elim
    · rfl

theorem Sole.stepAllow (h : s.Sole) (hsound : s.Sound) : s.stepAllow.Sole := by
  unfold Breaking.stepAllow
  generalize hr : s.breaker.allow s.now = r
  cases hsound.breaker.allowed hr with
  | closed hs =>
    refine h.concat (fun _ => ?_) (fun _ => ?_)
    · simp [Breaking.admitted, hs]
    · simp [Breaking.admitted, Request.isProbe, hs]
  | waiting | probing => exact h.concat (fun hf => by cases hf) (fun hf => by cases hf)
  | probe hs => exact h.probe hs _ rfl

/-- A request that goes on, with its admission, is as much under way as before. -/
theorem Sole.finish (h : s.Sole) (hr : s.requests[n]? = some ⟨admission, .running⟩) (o : Outcome) :
    Sole { s with requests := s.requests.set n ⟨admission, .reporting o⟩ } := by
  have hback : ∀ (m : Nat) (q : Request), (s.requests.set n ⟨admission, .reporting o⟩)[m]? = some q →
      ∃ q', s.requests[m]? = some q' ∧ q'.admission = q.admission ∧
        (q.inFlight = true → q'.inFlight = true) := by
    intro m q hm
    rcases getElem?_set_eq_some hm with ⟨rfl, rfl⟩ | ⟨-, hm⟩
    · exact ⟨_, hr, rfl, fun _ => rfl⟩
    · exact ⟨q, hm, rfl, id⟩
  refine ⟨?_, ?_, ?_⟩
  · intro q hq hf
    obtain ⟨m, hm⟩ := List.mem_iff_getElem?.mp hq
    obtain ⟨q', hq', ha, hf'⟩ := hback m q hm
    rw [← ha]
    exact h.admitted q' (List.mem_of_getElem? hq') (hf' hf)
  · intro q hq hf k hk
    obtain ⟨m, hm⟩ := List.mem_iff_getElem?.mp hq
    obtain ⟨q', hq', ha, hf'⟩ := hback m q hm
    exact h.current q' (List.mem_of_getElem? hq') (hf' hf) k (ha.trans hk)
  · intro m m' q r hm hm' hqp hrp hqf hrf
    obtain ⟨q', hq', ha, hf'⟩ := hback m q hm
    obtain ⟨r', hr', ha', hf''⟩ := hback m' r hm'
    refine h.one m m' q' r' hq' hr' ?_ ?_ (hf' hqf) (hf'' hrf)
    · rw [Request.isProbe, ha]
      exact hqp
    · rw [Request.isProbe, ha']
      exact hrp

variable {o : Outcome} {m : Nat}

/-- **After a result no probe is under way**: while the breaker is half-open the
result is the probe's own. -/
theorem Sole.report (h : s.Sole) (hr : s.requests[n]? = some ⟨admission, .reporting o⟩)
    (hok : s.NoStale (.report n)) :
    ∀ (m : Nat) (q : Request), (s.requests.set n ⟨admission, .returned o⟩)[m]? = some q →
      q.inFlight = true → q.isProbe = false ∧ q ∈ s.requests := by
  intro m q hm hf
  rcases getElem?_set_eq_some hm with ⟨-, rfl⟩ | ⟨hmn, hm⟩
  · cases hf
  refine ⟨?_, List.mem_of_getElem? hm⟩
  rw [Bool.eq_false_iff]
  intro hp
  obtain ⟨k, hk⟩ := isProbe_iff.mp hp
  have hhalf := (h.current q (List.mem_of_getElem? hm) hf k hk).2
  have hown : Request.isProbe ⟨admission, .reporting o⟩ = true := by
    cases admission with
    | refused => exact absurd rfl (h.admitted _ (List.mem_of_getElem? hr) rfl)
    | closed => exact absurd (by rw [hr]; rfl) (hok hhalf)
    | probe k => rfl
  exact hmn (h.one m n q _ hm hr hp hown hf rfl)

theorem Sole.stepReport (h : s.Sole) (hr : s.requests[n]? = some ⟨admission, .reporting o⟩)
    (hok : s.NoStale (.report n)) : (s.stepReport n ⟨admission, .reporting o⟩ o).Sole := by
  have hrest := h.report hr hok
  refine ⟨?_, ?_, ?_⟩
  · intro q hq hf
    obtain ⟨m, hm⟩ := List.mem_iff_getElem?.mp hq
    exact h.admitted q (hrest m q hm hf).2 hf
  · intro q hq hf k hk
    obtain ⟨m, hm⟩ := List.mem_iff_getElem?.mp hq
    have := (hrest m q hm hf).1
    rw [isProbe_iff.mpr ⟨k, hk⟩] at this
    cases this
  · intro m m' q r hm _ hqp _ hqf _
    rw [(hrest m q hm hqf).1] at hqp
    cases hqp

theorem Sole.step (h : s.Sole) (hsound : s.Sound) (hok : s.NoStale a) (hs : s.step a = some t) :
    t.Sole := by
  cases step_cases hs with
  | advance d => exact ⟨h.admitted, h.current, h.one⟩
  | allow => exact h.stepAllow hsound
  | finish hr o => exact h.finish hr o
  | report hr => exact h.stepReport hr hok

theorem sole_of_reaches (h : (breaking threshold timeout).Reaches NoStale s) : s.Sole := by
  refine (h.inv (I := fun s => s.Sound ∧ s.Sole) ?_ ?_).2
  · rintro _ ⟨now, rfl⟩
    refine ⟨⟨Breaker.sound_new threshold timeout, fun hc => by cases hc⟩, ?_, ?_, ?_⟩
    · intro r hr
      cases hr
    · intro r hr
      cases hr
    · intro m n q r hm
      cases hm
  · intro s a t hs hok hst
    exact ⟨hs.1.step hst, hs.2.step hs.1 hok hst⟩

/-- The request whose result closes the breaker is its latest probe. -/
theorem Sole.closes (h : s.Sole) (hok : s.NoStale a) (hc : s.Closes a t) (hsound : s.Sound) :
    s.ByLatestProbe a := by
  have hhalf := hc.before
  have hafter := hc.after
  cases step_cases hc.step with
  | advance | finish =>
    rw [hhalf] at hafter
    cases hafter
  | allow =>
    rw [Breaking.stepAllow, Breaker.allow_probing hhalf (hsound.breaker.active.mpr hhalf),
      hhalf] at hafter
    cases hafter
  | @report n admission o hr =>
    refine ⟨n, _, rfl, hr, ?_⟩
    cases admission with
    | refused => exact absurd rfl (h.admitted _ (List.mem_of_getElem? hr) rfl)
    | closed => exact absurd (by rw [hr]; rfl) (hok hhalf)
    | probe k => rw [(h.current _ (List.mem_of_getElem? hr) rfl k rfl).1]

/-! ### From a stale result to a second probe

Steps forward, to continue a run: time passes, requests are let in, and complete. -/

/-- Some run goes from `s` to `t`. -/
def Leads (threshold timeout : Int) (s t : Breaking) : Prop :=
  ∃ as, (breaking threshold timeout).run s as = some t

theorem Leads.trans {u : Breaking} (h : Leads threshold timeout s t)
    (g : Leads threshold timeout t u) : Leads threshold timeout s u := by
  obtain ⟨as, has⟩ := h
  obtain ⟨bs, hbs⟩ := g
  rw [← Machine.path_true_iff_run] at has hbs
  exact ⟨as ++ bs, Machine.path_true_iff_run.mp (has.append hbs)⟩

theorem Leads.sound (h : Leads threshold timeout s t) (hs : s.Sound) : t.Sound := by
  obtain ⟨as, has⟩ := h
  exact (Machine.path_true_iff_run.mpr has).inv (fun s a t hs _ hst => hs.step hst) hs

section Forward

variable (threshold timeout)

theorem leads_step (h : s.step a = some t) : Leads threshold timeout s t := by
  refine ⟨[a], ?_⟩
  exact congrArg (Option.bind · _) h

theorem leads_complete (hr : s.requests[n]? = some ⟨admission, .running⟩) (o : Outcome) :
    Leads threshold timeout s (s.stepReport n ⟨admission, .reporting o⟩ o) := by
  have hn : n < s.requests.length := (List.getElem?_eq_some_iff.mp hr).1
  have hfinish : s.step (.finish n o) =
      some { s with requests := s.requests.set n ⟨admission, .reporting o⟩ } := by
    simp only [step, hr]
  have hreport : Breaking.step { s with requests := s.requests.set n ⟨admission, .reporting o⟩ }
      (.report n) = some (s.stepReport n ⟨admission, .reporting o⟩ o) := by
    simp only [step, List.getElem?_set_self hn, stepReport, List.set_set]
  exact (leads_step _ _ hfinish).trans (leads_step _ _ hreport)

theorem leads_fail (hs : s.breaker.state = .closed) :
    ∃ t, Leads threshold timeout s t ∧ t.breaker = s.breaker.failure s.now ∧
      t.requests = s.requests ++ [⟨.closed, .returned .panic⟩] := by
  have hallow : s.step .allow =
      some { s with requests := s.requests ++ [⟨.closed, .running⟩] } := by
    simp only [step, stepAllow, Breaker.allow_closed hs, admitted, hs, reduceCtorEq, if_false]
  have hr : (s.requests ++ [⟨.closed, .running⟩])[s.requests.length]? =
      some (⟨.closed, .running⟩) := by simp
  refine ⟨_, (leads_step _ _ hallow).trans (leads_complete _ _ hr .panic), rfl, ?_⟩
  simp [stepReport]

/-- Requests that fail one after the other open the breaker in the end. -/
theorem leads_opened (k : Nat) : ∀ s : Breaking, s.breaker.state = .closed →
    s.breaker.threshold - s.breaker.failures = k + 1 →
    ∃ t, Leads threshold timeout s t ∧ t.breaker.state = .opened ∧
      ∃ more, t.requests = s.requests ++ more := by
  induction k with
  | zero =>
    intro s hs hk
    obtain ⟨t, hst, hb, hreq⟩ := leads_fail threshold timeout hs
    refine ⟨t, hst, ?_, _, hreq⟩
    rw [hb, Breaker.failure_opens (by rw [hs]; decide) (by omega)]
  | succ k ih =>
    intro s hs hk
    obtain ⟨t, hst, hb, hreq⟩ := leads_fail threshold timeout hs
    rw [Breaker.failure_counts (by rw [hs]; decide) (by omega)] at hb
    obtain ⟨u, htu, hu, more, hmore⟩ := ih t (by rw [hb]; exact hs) (by rw [hb]; dsimp only; omega)
    exact ⟨u, hst.trans htu, hu, _, by rw [hmore, hreq, List.append_assoc]⟩

/-- When an open window is over the next request is a probe. -/
theorem leads_probe_of_opened (h : s.Sound) (hs : s.breaker.state = .opened) :
    ∃ t, Leads threshold timeout s t ∧ t.breaker.state = .halfOpen ∧ t.openings = s.openings ∧
      t.requests = s.requests ++ [⟨.probe s.openings, .running⟩] := by
  have ha : s.breaker.halfOpenActive = false := by
    rw [Bool.eq_false_iff, Ne, h.breaker.active, hs]
    decide
  have hwait : s.step (.advance (s.breaker.timeout - (s.now - s.breaker.openedAt)).toNat) =
      some { s with now := s.now + (s.breaker.timeout - (s.now - s.breaker.openedAt)).toNat } := rfl
  refine ⟨_, (leads_step _ _ hwait).trans (leads_step _ _ (a := .allow) rfl), ?_⟩
  rw [Breaking.stepAllow, Breaker.allow_over hs (by dsimp only; omega) ha]
  exact ⟨rfl, rfl, rfl⟩

/-- A breaker that is not half-open can be led to a new probe. -/
theorem leads_probe (h : s.Sound) (hs : s.breaker.state ≠ .halfOpen) :
    ∃ t, Leads threshold timeout s t ∧
      ∃ more k, t.requests = s.requests ++ more ++ [⟨.probe k, .running⟩] := by
  have hopened : ∃ t, Leads threshold timeout s t ∧ t.breaker.state = .opened ∧
      ∃ more, t.requests = s.requests ++ more := by
    cases hst : s.breaker.state with
    | halfOpen => exact absurd hst hs
    | opened => exact ⟨s, ⟨[], rfl⟩, hst, [], (List.append_nil _).symm⟩
    | closed =>
      have hlt := h.breaker.below hst
      exact leads_opened _ _ (s.breaker.threshold - s.breaker.failures - 1).toNat s hst (by omega)
  obtain ⟨t, hst, hto, more, hmore⟩ := hopened
  obtain ⟨u, htu, -, -, hu⟩ := leads_probe_of_opened threshold timeout (hst.sound h) hto
  exact ⟨u, hst.trans htu, more, t.openings, by rw [hu, hmore]⟩

end Forward

/-- A result that is not `NoStale` leaves the probe under way, and the breaker no
longer half-open. -/
theorem stale_report (h : s.Sound) (hstale : ¬ s.NoStale a) (hst : s.step a = some t) :
    s.breaker.state = .halfOpen ∧ t.breaker.state ≠ .halfOpen ∧
      ∃ (n m : Nat) (r : Request), a = .report n ∧
        s.requests[n]?.map Request.admission = some .closed ∧
        t.requests[m]? = some r ∧ r.admission = .probe s.openings ∧ r.inFlight = true := by
  cases step_cases hst with
  | advance | allow | finish => exact absurd trivial hstale
  | @report n admission o hr =>
    simp only [NoStale, not_forall, not_not] at hstale
    obtain ⟨hhalf, hclosed⟩ := hstale
    obtain ⟨r, hmem, hp, hf⟩ := h.probe hhalf
    obtain ⟨m, hm⟩ := List.mem_iff_getElem?.mp hmem
    have hnm : n ≠ m := by
      rintro rfl
      rw [hm, Option.map_some, hp] at hclosed
      cases hclosed
    refine ⟨hhalf, (h.breaker.reported rfl).not_halfOpen, n, m, r, rfl, hclosed, ?_, hp, hf⟩
    simp only [stepReport]
    rw [List.getElem?_set_ne hnm]
    exact hm

/-- A failure while half-open opens the breaker again. -/
theorem stepReport_failure (h : s.Sound) (hs : s.breaker.state = .halfOpen) (ho : o ≠ .ok) :
    (s.stepReport n r o).breaker.state = .opened ∧
      (s.stepReport n r o).openings = s.openings + 1 := by
  have hne : s.breaker.state ≠ .opened := by rw [hs]; decide
  have hopened : (s.breaker.report s.now o).state = .opened := by
    generalize hb : s.breaker.report s.now o = b
    cases h.breaker.reported hb with
    | stale hc => exact absurd hc hne
    | closes => exact absurd rfl ho
    | opens => rfl
    | counts hc =>
      rw [hs] at hc
      cases hc
  exact ⟨hopened, if_pos ⟨hne, hopened⟩⟩

theorem not_atMostOneProbe {more : List Request} {k : Nat} (hr : s.requests[m]? = some r)
    (hp : r.isProbe = true) (hf : r.inFlight = true)
    (ht : t.requests = s.requests ++ more ++ [⟨.probe k, .running⟩]) : ¬ t.AtMostOneProbe := by
  intro hone
  have hm : m < s.requests.length := (List.getElem?_eq_some_iff.mp hr).1
  have hm' : t.requests[m]? = some r := by
    rw [ht, List.append_assoc, List.getElem?_append_left hm, hr]
  have hlast : t.requests[(s.requests ++ more).length]? = some ⟨.probe k, .running⟩ := by
    rw [ht]
    simp
  have heq := hone m _ r _ hm' hlast hp rfl hf rfl
  rw [List.length_append] at heq
  omega

/-! ### From a stale result to a wrong close -/

/-- Some run from `s` ends with a result that closes the breaker and is not its
latest probe's. -/
def GoesWrong (threshold timeout : Int) (s : Breaking) : Prop :=
  ∃ u a v, Leads threshold timeout s u ∧ u.Closes a v ∧ ¬ u.ByLatestProbe a

theorem Leads.goesWrong (h : Leads threshold timeout s t) (ht : GoesWrong threshold timeout t) :
    GoesWrong threshold timeout s := by
  obtain ⟨u, a, v, htu, hc, hn⟩ := ht
  exact ⟨u, a, v, h.trans htu, hc, hn⟩

section Wrong

variable (threshold timeout)

theorem wrong_of_reporting (hs : s.breaker.state = .halfOpen)
    (hr : s.requests[m]? = some ⟨admission, .reporting .ok⟩) (hadm : admission ≠ .probe s.openings) :
    GoesWrong threshold timeout s := by
  have hstep : s.step (.report m) = some (s.stepReport m ⟨admission, .reporting .ok⟩ .ok) := by
    simp only [step, hr]
  refine ⟨s, .report m, _, ⟨[], rfl⟩, ⟨hstep, hs, ?_⟩, ?_⟩
  · simp only [stepReport, Breaker.report]
    rw [Breaker.success_eq (by rw [hs]; decide)]
  · rintro ⟨n, r, hn, hr', hp⟩
    cases hn
    rw [hr] at hr'
    cases hr'
    exact hadm hp

theorem wrong_of_running (hs : s.breaker.state = .halfOpen)
    (hr : s.requests[m]? = some ⟨admission, .running⟩) (hadm : admission ≠ .probe s.openings) :
    GoesWrong threshold timeout s := by
  have hstep : s.step (.finish m .ok) =
      some { s with requests := s.requests.set m ⟨admission, .reporting .ok⟩ } := by
    simp only [step, hr]
  have hm : m < s.requests.length := (List.getElem?_eq_some_iff.mp hr).1
  exact (leads_step _ _ hstep).goesWrong
    (wrong_of_reporting _ _ hs (List.getElem?_set_self hm) hadm)

/-- A probe of an earlier opening is under way when the breaker opens again. -/
theorem wrong_of_opened {k : Nat} (h : s.Sound) (hs : s.breaker.state = .opened)
    (hr : s.requests[m]? = some r) (hp : r.admission = .probe k) (hk : k < s.openings)
    (hf : r.inFlight = true) : GoesWrong threshold timeout s := by
  obtain ⟨t, hst, hhalf, hopen, hreq⟩ := leads_probe_of_opened threshold timeout h hs
  have hm : m < s.requests.length := (List.getElem?_eq_some_iff.mp hr).1
  have hr' : t.requests[m]? = some r := by rw [hreq, List.getElem?_append_left hm, hr]
  have hold : r.admission ≠ .probe t.openings := by
    rw [hp, hopen]
    intro hc
    cases hc
    exact hk.false
  refine hst.goesWrong ?_
  obtain ⟨admission, pc⟩ := r
  by_cases hok : pc = .running ∨ pc = .reporting .ok
  · rcases hok with rfl | rfl
    · exact wrong_of_running _ _ hhalf hr' hold
    · exact wrong_of_reporting _ _ hhalf hr' hold
  -- the earlier probe fails, and the new one is then the earlier one of a third
  obtain ⟨o, rfl, ho⟩ : ∃ o, pc = .reporting o ∧ o ≠ .ok := by
    cases pc with
    | running => exact absurd (.inl rfl) hok
    | reporting o => exact ⟨o, rfl, fun hc => hok (.inr (by rw [hc]))⟩
    | returned o => cases hf
  have hstep : t.step (.report m) = some (t.stepReport m ⟨admission, .reporting o⟩ o) := by
    simp only [step, hr']
  have htu := leads_step threshold timeout hstep
  obtain ⟨hopened, hcount⟩ := stepReport_failure (hst.sound h) hhalf ho
  obtain ⟨v, huv, hvhalf, hvopen, hvreq⟩ :=
    leads_probe_of_opened threshold timeout (htu.sound (hst.sound h)) hopened
  have hlast : v.requests[s.requests.length]? = some ⟨.probe s.openings, .running⟩ := by
    rw [hvreq]
    simp only [stepReport, hreq]
    rw [List.getElem?_append_left (by simp), List.getElem?_set_ne hm.ne]
    simp
  refine (htu.trans huv).goesWrong (wrong_of_running _ _ hvhalf hlast ?_)
  intro hc
  rw [Admission.probe.injEq] at hc
  omega

end Wrong

end Breaking

/-- **Only the latest probe closes the breaker** in runs without stale results, and a
stale result closes it itself or leaves room for one that does. -/
theorem closed_by_latest_probe (threshold timeout : Int) (s t : Breaking) (a : BreakAct)
    (h : (breaking threshold timeout).Reaches Breaking.NoStale s) (hst : s.step a = some t) :
    (s.NoStale a → s.Closes a t → s.ByLatestProbe a) ∧
    (¬ s.NoStale a → (s.Closes a t ∧ ¬ s.ByLatestProbe a) ∨
      Breaking.GoesWrong threshold timeout t) := by
  have hsound := Breaking.sound_of_reaches h
  refine ⟨fun hok hc => (Breaking.sole_of_reaches h).closes hok hc hsound, fun hstale => ?_⟩
  obtain ⟨hhalf, -, n, m, r, rfl, hclosed, hm, hp, hf⟩ := Breaking.stale_report hsound hstale hst
  cases Breaking.step_cases hst with
  | @report n admission o hr =>
    rw [hr] at hclosed
    cases hclosed
    by_cases ho : o = .ok
    · subst ho
      refine .inl ⟨⟨hst, hhalf, ?_⟩, ?_⟩
      · simp only [Breaking.stepReport, Breaker.report]
        rw [Breaker.success_eq (by rw [hhalf]; decide)]
      · rintro ⟨n', r', hn, hr', hp'⟩
        cases hn
        rw [hr] at hr'
        cases hr'
        cases hp'
    · obtain ⟨hopened, hcount⟩ := Breaking.stepReport_failure hsound hhalf ho
      exact .inr (Breaking.wrong_of_opened _ _ (hsound.step hst) hopened hm hp
        (by rw [hcount]; exact Nat.lt_succ_self _) hf)

/-- The probe after the first opening reports success. -/
def probeSucceeds : List BreakAct := failThenProbe ++ [.finish 1 .ok]

theorem closed_by_latest_probe_probeSucceeds :
    ∃ s t, (breaking 1 10).Reaches Breaking.NoStale s ∧ s.Closes (.report 1) t ∧
      s.ByLatestProbe (.report 1) := by
  have hrun : ((breaking 1 10).runIf Breaking.NoStale (startedAt 0) probeSucceeds).map
      (fun s => (s.breaker.state, (s.step (.report 1)).map (·.breaker.state))) =
      some (.halfOpen, some .closed) := by decide
  obtain ⟨s, hs, hst⟩ := Option.map_eq_some_iff.mp hrun
  rw [Prod.mk.injEq] at hst
  obtain ⟨t, ht, hc⟩ := Option.map_eq_some_iff.mp hst.2
  have hr : (breaking 1 10).Reaches Breaking.NoStale s := Machine.reaches_of_runIf _ ⟨0, rfl⟩ hs
  have hclose : s.Closes (.report 1) t := ⟨ht, hst.1, hc⟩
  have hok : s.NoStale (.report 1) := by
    have hn : ((breaking 1 10).runIf Breaking.NoStale (startedAt 0) probeSucceeds).map
        (fun s => decide (s.NoStale (.report 1))) = some true := by decide
    rw [hs, Option.map_some, Option.some_inj] at hn
    exact of_decide_eq_true hn
  exact ⟨s, t, hr, hclose, (closed_by_latest_probe 1 10 s t _ hr ht).1 hok hclose⟩

/-- A request is let in, a second one fails and opens the breaker, and after the
window a third is let in as the probe. -/
def probeBesideOld : List BreakAct :=
  [.allow, .allow, .finish 1 .panic, .report 1, .advance 10, .allow]

/-- **A request from before the opening closes the breaker** while the probe runs. -/
theorem stale_success_closes :
    ∃ s t, (breaking 1 10).Reachable s ∧ s.Closes (.report 0) t ∧
      s.requests[0]?.map Request.admission = some .closed ∧ t.ProbeUnderWay := by
  have hrun : ((breaking 1 10).run (startedAt 0) (probeBesideOld ++ [.finish 0 .ok])).map
      (fun s => (s.breaker.state, s.requests[0]?.map Request.admission,
        (s.step (.report 0)).map fun t => (t.breaker.state, t.openings, t.requests[2]?))) =
      some (.halfOpen, some .closed,
        some (.closed, 1, some ⟨.probe 1, .running⟩)) := rfl
  obtain ⟨s, hreach, hst⟩ := Machine.exists_reachable hrun ⟨0, rfl⟩
  simp only [Prod.mk.injEq, Option.map_eq_some_iff] at hst
  obtain ⟨hhalf, hadm, t, ht, hc, hopen, hprobe⟩ := hst
  refine ⟨s, t, hreach, ⟨ht, hhalf, hc⟩, ?_, _, List.mem_of_getElem? hprobe, ?_, rfl⟩
  · rw [Option.map_eq_some_iff]
    exact hadm
  · rw [hopen]

/-- **At most one probe is in flight** in runs without stale results, and a stale
result always leaves room for a second one. -/
theorem at_most_one_probe (threshold timeout : Int) (s : Breaking)
    (h : (breaking threshold timeout).Reaches Breaking.NoStale s) :
    s.AtMostOneProbe ∧
    ∀ a t, s.step a = some t → ¬ s.NoStale a →
      ∃ u, Breaking.Leads threshold timeout t u ∧ ¬ u.AtMostOneProbe := by
  refine ⟨(Breaking.sole_of_reaches h).one, fun a t hst hstale => ?_⟩
  have hsound := Breaking.sound_of_reaches h
  obtain ⟨-, hnot, -, m, r, -, -, hm, hp, hf⟩ := Breaking.stale_report hsound hstale hst
  obtain ⟨u, htu, more, k, hu⟩ := Breaking.leads_probe threshold timeout (hsound.step hst) hnot
  exact ⟨u, htu, Breaking.not_atMostOneProbe hm (Breaking.isProbe_iff.mpr ⟨_, hp⟩) hf hu⟩

theorem at_most_one_probe_failThenProbe :
    ∃ s, (breaking 1 10).Reaches Breaking.NoStale s ∧
      s.requests[1]? = some ⟨.probe 1, .running⟩ ∧ s.AtMostOneProbe := by
  have hrun : ((breaking 1 10).runIf Breaking.NoStale (startedAt 0) failThenProbe).map
      (·.requests[1]?) = some (some ⟨.probe 1, .running⟩) := by decide
  obtain ⟨s, hr, hst⟩ := Machine.exists_reaches hrun ⟨0, rfl⟩
  exact ⟨s, hr, hst, (at_most_one_probe 1 10 s hr).1⟩

/-- The old request fails, and after another window a second probe is let in. -/
def secondProbe : List BreakAct :=
  probeBesideOld ++ [.finish 0 .panic, .report 0, .advance 10, .allow]

/-- **Two probes at once**, after a failure from before the opening. -/
theorem stale_failure_two_probes :
    ∃ s, (breaking 1 10).Reachable s ∧ ¬ s.AtMostOneProbe := by
  have hrun : ((breaking 1 10).run (startedAt 0) secondProbe).map
      (fun s => (s.requests[2]?, s.requests[3]?)) =
      some (some ⟨.probe 1, .running⟩, some ⟨.probe 2, .running⟩) := by decide
  obtain ⟨s, hreach, hst⟩ := Machine.exists_reachable hrun ⟨0, rfl⟩
  rw [Prod.mk.injEq] at hst
  refine ⟨s, hreach, fun hone => ?_⟩
  have := hone 2 3 _ _ hst.1 hst.2 rfl rfl rfl rfl
  omega

end SharkSocket.Infra
