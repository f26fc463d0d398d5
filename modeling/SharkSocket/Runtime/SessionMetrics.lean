import SharkSocket.Runtime.SessionCalls

/-!
# The metrics of `metricSessionManager`

All calls go through `metricSessionManager`.  Between the change of the count and the
counter that records it a call weighs one, up or down, so the two counters and the
running calls together give the count, and with no call in progress the counters alone
do.

The gauge is written from a count that was read one step before.  Whoever changes the
count writes the gauge later, so at rest the count is what it was at the last write.
But the last writer need not be the last that read: at rest the gauge may be behind
(`gauge_left_behind`).  It is right exactly when the last write was of the count of that
moment (`metrics_at_rest`).
-/

namespace SharkSocket.Runtime

open Lib

/-! ### What a running call still has to record -/

namespace Prim

variable {b b' : Books} {free : Free} {p p' : Prim}

/-- What the count is ahead of the counters. -/
def weight : Prim → Int
  | register _ .store | register _ (.unlock none) | register _ (.report .inc) => 1
  | unregister _ (.report .inc) => -1
  | _ => 0

/-- The count has changed and the gauge is still to be written. -/
def unwritten : Prim → Bool
  | register _ .store | register _ (.unlock none) | register _ (.report _)
  | unregister _ (.report _) => true
  | _ => false

theorem weight_quiet (h : p.quiet = true) : p.weight = 0 := by
  cases p with
  | register sess pc | unregister id pc => cases pc <;> first | rfl | cases h
  | _ => rfl

theorem unwritten_quiet (h : p.quiet = true) : p.unwritten = false := by
  cases p with
  | register sess pc | unregister id pc => cases pc <;> first | rfl | cases h
  | _ => rfl

/-- **The count moves with the counters and what is still to be recorded.** -/
theorem Step.recorded (h : Step b true free p b' p') :
    b'.manager.count - b'.accepted + b'.closed - p'.weight =
      b.manager.count - b.accepted + b.closed - p.weight := by
  cases h with
  | claim | releaseMetered _ =>
    simp only [Books.setCount, weight]
    omega
  | @leaveRegister sess err hplain =>
    cases err with
    | none => simp at hplain
    | some e => rfl
  | incRegister | incUnregister =>
    simp only [Books.incCounter, weight]
    omega
  | releasePlain hplain => cases hplain
  | _ => rfl

end Prim

/-- Before the first write the gauge is zero, as is the count. -/
def Books.lastWrite (b : Books) : GaugeWrite := b.writes.getLast?.getD ⟨0, 0⟩

theorem Books.lastWrite_setGauge (b : Books) (value : Int) :
    (b.setGauge value).lastWrite = ⟨value, b.manager.count⟩ := by
  simp [lastWrite, setGauge]

namespace Prim

variable {b b' : Books} {free : Free} {p p' : Prim}

theorem Step.active (h : Step b true free p b' p') (hb : b.active = b.lastWrite.value) :
    b'.active = b'.lastWrite.value := by
  cases h with
  | setRegister | setUnregister => rw [Books.lastWrite_setGauge]; rfl
  | _ => exact hb

/-- **Who changes the count writes the gauge later.** -/
theorem Step.written (h : Step b true free p b' p') :
    b'.manager.count = b'.lastWrite.count ∨ p'.unwritten = true ∨
      (b'.manager.count = b.manager.count ∧ b'.lastWrite = b.lastWrite ∧ p.unwritten = false) := by
  cases h with
  | setRegister | setUnregister => exact .inl (by rw [Books.lastWrite_setGauge]; rfl)
  | @leaveRegister sess err hplain =>
    cases err with
    | none => simp at hplain
    | some e => exact .inr (.inr ⟨rfl, rfl, rfl⟩)
  | releasePlain hplain => cases hplain
  | _ => first | exact .inr (.inl rfl) | exact .inr (.inr ⟨rfl, rfl, rfl⟩)

end Prim

/-! ### The invariant -/

def Goroutine.weight (g : Goroutine) : Int := g.prim.elim 0 Prim.weight

def Goroutine.unwritten (g : Goroutine) : Bool := g.prim.elim false Prim.unwritten

variable {g : Goroutine}

theorem Goroutine.weight_quiet (h : g.place.quiet = true) : g.weight = 0 :=
  elim_quiet (fun _ => Prim.weight_quiet) h

theorem Goroutine.unwritten_quiet (h : g.place.quiet = true) : g.unwritten = false :=
  elim_quiet (fun _ => Prim.unwritten_quiet) h

namespace Sessions

variable {s t : Sessions}

/-- Calls go through `metricSessionManager`. -/
def Metered (_ : Sessions) : SessionAct → Prop
  | .start metered _ => metered = true
  | _ => True

instance (s : Sessions) (a : SessionAct) : Decidable (s.Metered a) :=
  match a with
  | .start _ _ => inferInstanceAs (Decidable (_ = true))
  | .nextID => inferInstanceAs (Decidable True)
  | .step _ _ => inferInstanceAs (Decidable True)

structure Recorded (s : Sessions) : Prop where
  metered : ∀ g ∈ s.goroutines, g.metered = true
  count : s.books.manager.count =
    s.books.accepted - s.books.closed + (s.goroutines.map Goroutine.weight).sum
  active : s.books.active = s.books.lastWrite.value
  written : s.books.manager.count = s.books.lastWrite.count ∨
    ∃ g ∈ s.goroutines, g.unwritten = true

theorem recorded_new (max : Int) : Recorded ⟨.new max, []⟩ where
  metered g hg := by cases hg
  count := rfl
  active := rfl
  written := .inl rfl

theorem Recorded.start (h : Recorded s) (r : Request) :
    Recorded { s with goroutines := s.goroutines ++ [⟨true, r.place⟩] } where
  metered := forall_mem_concat h.metered rfl
  count := by
    rw [List.map_append, List.map_singleton, List.sum_append, List.sum_singleton,
      Goroutine.weight_quiet r.quiet_place, add_zero]
    exact h.count
  active := h.active
  written := h.written.imp_right fun ⟨g, hg, hw⟩ => ⟨g, List.mem_append_left _ hg, hw⟩

variable {n : Nat}

/-- Who still has to write the gauge is there after the step of another. -/
theorem unwritten_set {l : List Goroutine} {g' : Goroutine} (hg : l[n]? = some g)
    (hold : g.unwritten = false) (h : ∃ g ∈ l, g.unwritten = true) :
    ∃ g ∈ l.set n g', g.unwritten = true := by
  obtain ⟨q, hq, hw⟩ := h
  obtain ⟨m, hm⟩ := List.mem_iff_getElem?.mp hq
  refine ⟨q, List.mem_of_getElem? (i := m) ?_, hw⟩
  rw [List.getElem?_set_ne, hm]
  rintro rfl
  rw [hg] at hm
  cases hm
  rw [hold] at hw
  cases hw

theorem metered_set {l : List Goroutine} {g' : Goroutine} (hg : l[n]? = some g)
    (hg' : g'.metered = g.metered) (h : ∀ g ∈ l, g.metered = true) :
    ∀ g ∈ l.set n g', g.metered = true :=
  forall_mem_set h (hg'.trans (h g (List.mem_of_getElem? hg)))

theorem Recorded.control (h : Recorded s) {place : Place} (hg : s.goroutines[n]? = some g)
    (hold : g.place.quiet = true) (hnew : place.quiet = true) :
    Recorded { s with goroutines := s.goroutines.set n { g with place := place } } where
  metered := metered_set hg rfl h.metered
  count := by
    have hsum := sum_map_set Goroutine.weight hg { g with place := place }
    rw [Goroutine.weight_quiet hold, Goroutine.weight_quiet hnew] at hsum
    have hcount := h.count
    dsimp only
    omega
  active := h.active
  written := h.written.imp_right (unwritten_set hg (Goroutine.unwritten_quiet hold))

theorem Recorded.prim (h : Recorded s) {p p' : Prim} {b : Books} (hg : s.goroutines[n]? = some g)
    (hp : g.prim = some p) (hstep : Prim.Step s.books g.metered s.free p b p') :
    Recorded ⟨b, s.goroutines.set n { g with place := g.place.put p' }⟩ := by
  rw [h.metered g (List.mem_of_getElem? hg)] at hstep
  have hput : ({ g with place := g.place.put p' }).prim = some p' :=
    Place.prim_put hp p'
  refine ⟨metered_set hg rfl h.metered, ?_, hstep.active h.active, ?_⟩
  · have hsum := sum_map_set Goroutine.weight hg { g with place := g.place.put p' }
    rw [Goroutine.weight, Goroutine.weight, hput, hp, Option.elim_some, Option.elim_some] at hsum
    have hrec := hstep.recorded
    have hcount := h.count
    dsimp only
    omega
  · rcases hstep.written with heq | hw | ⟨hcount, hlast, hw⟩
    · exact .inl heq
    · refine .inr ⟨_, List.mem_set (List.getElem?_eq_some_iff.mp hg).1 _, ?_⟩
      rw [Goroutine.unwritten, hput]
      exact hw
    rw [hcount, hlast]
    refine h.written.imp_right (unwritten_set hg ?_)
    rw [Goroutine.unwritten, hp]
    exact hw

theorem recorded_of_reaches {max : Int} (h : (sessions max).Reaches Metered s) : Recorded s := by
  refine h.inv ?_ ?_
  · rintro s rfl
    exact recorded_new max
  · intro s a t hs hok hst
    cases step_cases hst with
    | start metered r =>
      cases hok
      exact hs.start r
    | nextID => exact ⟨hs.metered, hs.count, hs.active, hs.written⟩
    | prim hg hp hstep => exact hs.prim hg hp (Prim.step_cases hstep)
    | control hg hold hnew _ => exact hs.control hg hold hnew

end Sessions

/-- **The metrics at rest.**  The counters always add up to the count.  The gauge is the
count exactly when the last write of it was of the count of that moment. -/
theorem metrics_at_rest (max : Int) (s : Sessions) (h : (sessions max).Reaches Sessions.Metered s)
    (hrest : s.AtRest) :
    (s.books.accepted : Int) - s.books.closed = s.books.manager.count ∧
    (s.books.active = s.books.manager.count ↔
      ∀ w ∈ s.books.writes.getLast?, w.value = w.count) := by
  have hr := Sessions.recorded_of_reaches h
  have hquiet : ∀ g ∈ s.goroutines, g.place.quiet = true := fun g hg =>
    Place.quiet_returned (hrest g hg)
  have hweight : (s.goroutines.map Goroutine.weight).sum = 0 := by
    refine List.sum_eq_zero fun k hk => ?_
    obtain ⟨g, hg, rfl⟩ := List.mem_map.mp hk
    exact Goroutine.weight_quiet (hquiet g hg)
  have hcount : s.books.manager.count = s.books.lastWrite.count := by
    refine hr.written.resolve_right ?_
    rintro ⟨g, hg, hw⟩
    rw [Goroutine.unwritten_quiet (hquiet g hg)] at hw
    cases hw
  constructor
  · rw [hr.count, hweight, add_zero]
  · rw [hr.active, hcount, Books.lastWrite]
    cases s.books.writes.getLast? with
    | none | some w => simp

def startTwo : List SessionAct :=
  [.start true (.register (some ⟨1, false⟩)), .start true (.register (some ⟨2, false⟩))]

/-- One `Register` after the other. -/
def inTurn : List SessionAct :=
  startTwo ++ List.replicate 9 (SessionAct.step 0 .steady) ++
    List.replicate 9 (SessionAct.step 1 .steady)

theorem metrics_at_rest_inTurn : ∃ s : Sessions, (sessions 10).Reaches Sessions.Metered s ∧
    s.books.writes = [⟨1, 1⟩, ⟨2, 2⟩] ∧ s.books.active = s.books.manager.count := by
  have hrun : ((sessions 10).runIf Sessions.Metered ⟨.new 10, []⟩ inTurn).map
      (fun s => (s.books.writes, decide s.AtRest)) = some ([⟨1, 1⟩, ⟨2, 2⟩], true) := by
    decide +kernel
  obtain ⟨s, hr, heq⟩ := Machine.exists_reaches hrun rfl
  rw [Prod.mk.injEq] at heq
  refine ⟨s, hr, heq.1, (metrics_at_rest 10 s hr (of_decide_eq_true heq.2)).2.mpr ?_⟩
  rw [heq.1]
  simp

/-- The first `Register` reads the count, the second runs to its end, and then the first
writes the gauge: two sessions are there and the gauge says one. -/
def overtaken : List SessionAct :=
  startTwo ++ List.replicate 8 (SessionAct.step 0 .steady) ++
    List.replicate 9 (SessionAct.step 1 .steady) ++ [SessionAct.step 0 .steady]

theorem gauge_left_behind : ∃ s : Sessions, (sessions 10).Reaches Sessions.Metered s ∧ s.AtRest ∧
    s.books.active = 1 ∧ s.books.manager.count = 2 := by
  have hrun : ((sessions 10).runIf Sessions.Metered ⟨.new 10, []⟩ overtaken).map
      (fun s => (decide s.AtRest, s.books.active, s.books.manager.count)) = some (true, 1, 2) := by
    decide +kernel
  obtain ⟨s, hreach, heq⟩ := Machine.exists_reaches hrun rfl
  rw [Prod.mk.injEq, Prod.mk.injEq] at heq
  exact ⟨s, hreach, of_decide_eq_true heq.1, heq.2⟩

end SharkSocket.Runtime
