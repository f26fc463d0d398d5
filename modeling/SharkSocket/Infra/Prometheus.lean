import SharkSocket.Core
import SharkSocket.Lib.Keys
import SharkSocket.Lib.Text
import SharkSocket.Lib.WholeFloat

/-!
# Prometheus metrics

`internal/infra/observability/prometheus.go` keeps one entry per series in three tables.
The lock is held for the whole of each call, so a run is a sequence of calls.

A series is found by its name and labels through `newSeriesKey`.  A label with a name and
its value are kept as they are; any other list of labels is joined by NUL bytes.
`newSeriesKey_injective` says for which lists the key tells two series apart:
`seriesKey_collides` has two kinds of lists that it does not tell apart.

Numbers are of an arbitrary type `V` here: a counter is only incremented, a gauge only set.
For counters `V` is then the whole numbers of a `float64`.
-/

namespace SharkSocket.Infra

open Std Lib

structure SeriesKey where
  name : Bytes
  label0 : Bytes
  value0 : Bytes
  rest : Bytes
  deriving DecidableEq, Repr

namespace SeriesKey

instance : Ord SeriesKey := pairOrd name fun key => [key.label0, key.value0, key.rest]

instance : TransOrd SeriesKey := transCmp_pairOrd _ _

instance : LawfulEqOrd SeriesKey :=
  lawfulEqCmp_pairOrd _ _ fun ⟨_, _, _, _⟩ ⟨_, _, _, _⟩ hn hr => by cases hn; cases hr; rfl

end SeriesKey

def newSeriesKey (name : Bytes) (labels : List Bytes) : SeriesKey :=
  match labels with
  | [] => ⟨name, [], [], []⟩
  | [label, value] =>
    if label ≠ [] then ⟨name, label, value, []⟩ else ⟨name, [], [], List.intercalate [0] labels⟩
  | _ => ⟨name, [], [], List.intercalate [0] labels⟩

structure PromMetric (V : Type) where
  name : Bytes
  labels : List Bytes
  value : V
  deriving DecidableEq, Repr

def PromMetric.increment {V : Type} [One V] [Add V] (metric : PromMetric V) : PromMetric V :=
  { metric with value := metric.value + 1 }

structure PromHistogram (V : Type) where
  name : Bytes
  labels : List Bytes
  buckets : List V
  counts : List UInt64
  count : UInt64
  sum : V
  deriving DecidableEq, Repr

structure PrometheusMetrics (V : Type) where
  counters : ExtTreeMap SeriesKey (PromMetric V)
  gauges : ExtTreeMap SeriesKey (PromMetric V)
  histograms : ExtTreeMap SeriesKey (PromHistogram V)
  buckets : ExtTreeMap Bytes (List V)

namespace PrometheusMetrics

variable {V : Type}

def new : PrometheusMetrics V := ⟨∅, ∅, ∅, ∅⟩

def incCounter [Zero V] [One V] [Add V] (m : PrometheusMetrics V) (name : Bytes)
    (labels : List Bytes) : PrometheusMetrics V :=
  { m with
    counters := upsert m.counters (newSeriesKey name labels) ⟨name, labels, 0⟩
      PromMetric.increment }

def setGauge [Zero V] (m : PrometheusMetrics V) (name : Bytes) (value : V) (labels : List Bytes) :
    PrometheusMetrics V :=
  { m with
    gauges := upsert m.gauges (newSeriesKey name labels) ⟨name, labels, 0⟩ fun gauge =>
      { gauge with value := value } }

end PrometheusMetrics

/-! ### The key of a series -/

/-- One label that has a name: it is kept in the key as it is. -/
def Inlined : List Bytes → Prop
  | [label, _] => label ≠ []
  | _ => False

/-- The lists that the key tells apart. -/
def Unambiguous (labels : List Bytes) : Prop :=
  Inlined labels ∨ (labels ≠ [[]] ∧ ∀ label ∈ labels, 0 ∉ label)

instance (labels : List Bytes) : Decidable (Inlined labels) :=
  match labels with
  | [label, _] => inferInstanceAs (Decidable (label ≠ []))
  | [] => .isFalse id
  | [_] => .isFalse id
  | _ :: _ :: _ :: _ => .isFalse id

instance (labels : List Bytes) : Decidable (Unambiguous labels) :=
  inferInstanceAs (Decidable (_ ∨ _))

theorem newSeriesKey_name (name : Bytes) (labels : List Bytes) :
    (newSeriesKey name labels).name = name := by
  unfold newSeriesKey
  split
  · rfl
  · split <;> rfl
  · rfl

theorem newSeriesKey_joined {labels : List Bytes} (h : ¬ Inlined labels) (name : Bytes) :
    newSeriesKey name labels = ⟨name, [], [], List.intercalate [0] labels⟩ := by
  unfold newSeriesKey
  split
  · rfl
  · rename_i label value
    have hlabel : label = [] := not_not.mp h
    rw [if_neg (not_not.mpr hlabel)]
  · rfl

theorem Inlined.exists_pair {labels : List Bytes} (h : Inlined labels) (name : Bytes) :
    ∃ label value, label ≠ [] ∧ labels = [label, value] ∧
      newSeriesKey name labels = ⟨name, label, value, []⟩ := by
  match labels, h with
  | [label, value], h => exact ⟨label, value, h, rfl, if_pos h⟩

/-- Lists without NUL bytes are found again in the joined text. -/
theorem intercalate_nul_injective {labels labels' : List Bytes} (hne : labels ≠ [[]])
    (hne' : labels' ≠ [[]]) (hnul : ∀ label ∈ labels, 0 ∉ label)
    (hnul' : ∀ label ∈ labels', 0 ∉ label)
    (h : List.intercalate [0] labels = List.intercalate [0] labels') : labels = labels' := by
  by_cases hnil : labels = []
  · by_cases hnil' : labels' = []
    · rw [hnil, hnil']
    have hsplit := List.splitOn_intercalate 0 hnul' hnil'
    rw [← h, hnil] at hsplit
    exact absurd hsplit.symm hne'
  by_cases hnil' : labels' = []
  · have hsplit := List.splitOn_intercalate 0 hnul hnil
    rw [h, hnil'] at hsplit
    exact absurd hsplit.symm hne
  · rw [← List.splitOn_intercalate 0 hnul hnil, h, List.splitOn_intercalate 0 hnul' hnil']

theorem newSeriesKey_injective {name name' : Bytes} {labels labels' : List Bytes}
    (h : Unambiguous labels) (h' : Unambiguous labels')
    (hkey : newSeriesKey name labels = newSeriesKey name' labels') :
    name = name' ∧ labels = labels' := by
  by_cases hin : Inlined labels
  · obtain ⟨label, value, hlabel, rfl, hk⟩ := hin.exists_pair name
    by_cases hin' : Inlined labels'
    · obtain ⟨label', value', -, rfl, hk'⟩ := hin'.exists_pair name'
      rw [hk, hk'] at hkey
      cases hkey
      exact ⟨rfl, rfl⟩
    rw [hk, newSeriesKey_joined hin', SeriesKey.mk.injEq] at hkey
    exact absurd hkey.2.1 hlabel
  rw [newSeriesKey_joined hin] at hkey
  by_cases hin' : Inlined labels'
  · obtain ⟨label', value', hlabel', rfl, hk'⟩ := hin'.exists_pair name'
    rw [hk', SeriesKey.mk.injEq] at hkey
    exact absurd hkey.2.1.symm hlabel'
  rw [newSeriesKey_joined hin', SeriesKey.mk.injEq] at hkey
  obtain ⟨hne, hnul⟩ := h.resolve_left hin
  obtain ⟨hne', hnul'⟩ := h'.resolve_left hin'
  exact ⟨hkey.1, intercalate_nul_injective hne hne' hnul hnul' hkey.2.2.2⟩

/-! ### Counting calls -/

/-- A call of `IncCounter`. -/
structure CounterCall where
  name : Bytes
  labels : List Bytes
  deriving DecidableEq, Repr

namespace CounterCall

def key (c : CounterCall) : SeriesKey := newSeriesKey c.name c.labels

theorem key_inj {c d : CounterCall} (hc : Unambiguous c.labels) (hd : Unambiguous d.labels) :
    c.key = d.key ↔ c = d := by
  constructor
  · intro hkey
    obtain ⟨hname, hlabels⟩ := newSeriesKey_injective hc hd hkey
    cases c
    cases d
    cases hname
    cases hlabels
    rfl
  · rintro rfl
    rfl

def apply {V : Type} [Zero V] [One V] [Add V] (m : PrometheusMetrics V) (c : CounterCall) :
    PrometheusMetrics V :=
  m.incCounter c.name c.labels

end CounterCall

section Counting

variable {V : Type} [Zero V] [One V] [Add V]

theorem counters_foldl (calls : List CounterCall) (m : PrometheusMetrics V) :
    (calls.foldl CounterCall.apply m).counters =
      calls.foldl (fun t c => upsert t c.key ⟨c.name, c.labels, 0⟩ PromMetric.increment)
        m.counters := by
  induction calls generalizing m with
  | nil => rfl
  | cons c calls ih =>
    rw [List.foldl_cons, ih]
    rfl

/-- Calls for one series increment its value. -/
theorem foldl_increments (c : CounterCall) (n : Nat) (metric : PromMetric V) :
    (List.replicate n c).foldl (fun e c => some (e.getD ⟨c.name, c.labels, 0⟩).increment)
        (some metric) = some { metric with value := (· + 1)^[n] metric.value } := by
  induction n generalizing metric with
  | zero => rfl
  | succ n ih => exact ih _

/-- After calls with labels that the key tells apart, each series that was incremented has
its own entry, incremented once for each of its calls. -/
theorem counters_eq {calls : List CounterCall} {call : CounterCall} (h : Unambiguous call.labels)
    (hcalls : ∀ c ∈ calls, Unambiguous c.labels) :
    (calls.foldl CounterCall.apply (.new : PrometheusMetrics V)).counters[call.key]? =
      if calls.count call = 0 then none
      else some ⟨call.name, call.labels, (· + 1)^[calls.count call] 0⟩ := by
  have hfilter : calls.filter (·.key = call.key) = List.replicate (calls.count call) call := by
    rw [← List.filter_beq]
    refine List.filter_congr fun c hc => ?_
    rw [beq_eq_decide, decide_eq_decide]
    exact CounterCall.key_inj (hcalls c hc) h
  rw [counters_foldl, getElem?_foldl_upsert CounterCall.key, hfilter]
  cases calls.count call with
  | zero => rfl
  | succ n => exact foldl_increments call n _

end Counting

/-- **A counter counts the calls for its series**, if no label list joins to the text of
another (`Unambiguous`, against `seriesKey_collides`) and there are not more calls than a
`float64` counts: after any calls of `IncCounter`, the entry stored for a name and labels
holds that name and those labels and the number of calls made with exactly them.  No two
names with such labels have one key. -/
theorem incCounter_counts (calls : List CounterCall) (call : CounterCall)
    (h : Unambiguous call.labels) (hcalls : ∀ c ∈ calls, Unambiguous c.labels)
    (hfew : calls.count call ≤ wholeLimit) :
    ((calls.foldl CounterCall.apply .new).counters[call.key]? =
      if calls.count call = 0 then none
      else some ⟨call.name, call.labels, (⟨calls.count call⟩ : WholeFloat)⟩) ∧
    ∀ c : CounterCall, Unambiguous c.labels → (c.key = call.key ↔ c = call) := by
  constructor
  · have hvalue : (· + 1)^[calls.count call] (0 : WholeFloat) = ⟨calls.count call⟩ := by
      have hnat := WholeFloat.toNat_increments (calls.count call)
      rw [Nat.min_eq_left hfew] at hnat
      exact WholeFloat.ext hnat
    rw [counters_eq h hcalls, hvalue]
  · intro c hc
    exact CounterCall.key_inj hc h

/-- A counter without labels, and twice the same one with a label. -/
def threeCalls : List CounterCall :=
  [⟨[0x78], [[0x61], [0]]⟩, ⟨[0x78], []⟩, ⟨[0x78], [[0x61], [0]]⟩]

theorem incCounter_counts_threeCalls :
    (threeCalls.foldl CounterCall.apply .new).counters[newSeriesKey [0x78] [[0x61], [0]]]? =
      some ⟨[0x78], [[0x61], [0]], (⟨2⟩ : WholeFloat)⟩ :=
  (incCounter_counts threeCalls ⟨[0x78], [[0x61], [0]]⟩ (by decide) (by decide) (by decide)).1

/-- The value stored for the series of a call. -/
def stored (calls : List CounterCall) (call : CounterCall) : Option Nat :=
  (calls.foldl CounterCall.apply (.new : PrometheusMetrics WholeFloat)).counters[call.key]?.map
    (·.value.toNat)

/-- No labels and one empty label have the same key, and so have labels with NUL bytes and
the parts between them.  One call more than 2⁵³ is not counted any more. -/
theorem seriesKey_collides :
    stored [⟨[0x78], []⟩, ⟨[0x78], [[]]⟩] ⟨[0x78], []⟩ = some 2 ∧
    stored [⟨[0x78], [[0x61], [0x62], [0x63]]⟩, ⟨[0x78], [[0x61, 0, 0x62, 0, 0x63]]⟩]
      ⟨[0x78], [[0x61], [0x62], [0x63]]⟩ = some 2 ∧
    stored (List.replicate (wholeLimit + 1) ⟨[0x78], []⟩) ⟨[0x78], []⟩ = some wholeLimit := by
  refine ⟨by decide, by decide, ?_⟩
  have hlabels : ∀ c ∈ List.replicate (wholeLimit + 1) (⟨[0x78], []⟩ : CounterCall),
      Unambiguous c.labels := by
    intro c hc
    rw [List.eq_of_mem_replicate hc]
    decide
  rw [stored, counters_eq (by decide) hlabels, List.count_replicate_self,
    if_neg (Nat.succ_ne_zero _), Option.map_some, WholeFloat.toNat_increments,
    Nat.min_eq_right (Nat.le_succ _)]

end SharkSocket.Infra
