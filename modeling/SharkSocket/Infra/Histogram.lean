import SharkSocket.Infra.Exposition
import SharkSocket.Lib.Buckets

/-!
# Histograms

The histograms of `internal/infra/observability/prometheus.go`: `RegisterHistogram` sets the
bounds of a name before its first observation, `ObserveHistogram` counts a value in the first
bucket that takes it, and the export adds the buckets up.

Values and bounds are of a linear order `V`, whose sum is any function; the bounds of the
default ladder are its decimal literals.  `Inv` relates the tables to the calls that were
made: the counters of a series are the tally of its observations, and its ladder is the one
in force for its name, since no ladder changes under a series.  The counters are 64 bits wide,
so what `histogram_counts` says of the exported lines holds up to 2⁶⁴ observations
(`histogram_wraps`).
-/

namespace SharkSocket.Infra

open Std Lib

def defaultHistogramBuckets (V : Type) [OfScientific V] : List V :=
  [0.000001, 0.0000025, 0.000005,
    0.00001, 0.000025, 0.00005,
    0.0001, 0.00025, 0.0005,
    0.001, 0.0025, 0.005,
    0.01, 0.025, 0.05,
    0.1, 0.25, 0.5,
    1.0, 2.5, 5.0, 10.0]

inductive RegisterErr (V : Type)
  | nameRequired
  | noBucket (name : Bytes)
  | duplicate (name : Bytes) (bound : V)
  | observed (name : Bytes)
  deriving DecidableEq, Repr

/-- The text of the error; a bound is printed by the verb `%v`. -/
def RegisterErr.text {V : Type} (format : V → Bytes) : RegisterErr V → Bytes
  | nameRequired => ascii "prometheus: histogram name is required"
  | noBucket name => ascii "prometheus: histogram " ++ name ++ ascii " needs at least one bucket"
  | duplicate name bound =>
    ascii "prometheus: histogram " ++ name ++ ascii " has duplicate bucket " ++ format bound
  | observed name =>
    ascii "prometheus: histogram " ++ name ++
      ascii " was already observed; register it before traffic"

/-- The loop over neighbours of the sorted ladder. -/
def firstDuplicate {V : Type} [DecidableEq V] : List V → Option V
  | a :: b :: rest => if b = a then some b else firstDuplicate (b :: rest)
  | _ => none

variable {V : Type} [LinearOrder V]

section Calls

variable [Zero V] [Add V]

def PromHistogram.observe (hist : PromHistogram V) (value : V) : PromHistogram V :=
  { hist with
    counts := place (· + 1) hist.buckets hist.counts value
    count := hist.count + 1
    sum := hist.sum + value }

namespace PrometheusMetrics

def registerHistogram (m : PrometheusMetrics V) (name : Bytes) (buckets : List V) :
    Except (RegisterErr V) (PrometheusMetrics V) :=
  if name = [] then .error .nameRequired
  else if buckets = [] then .error (.noBucket name)
  else
    let clean := buckets.insertionSort (· ≤ ·)
    match firstDuplicate clean with
    | some bound => .error (.duplicate name bound)
    | none =>
      if m.histograms.keys.any (·.name = name) then .error (.observed name)
      else .ok { m with buckets := m.buckets.insert name clean }

variable [OfScientific V]

def bucketsFor (m : PrometheusMetrics V) (name : Bytes) : List V :=
  m.buckets[name]?.getD (defaultHistogramBuckets V)

def observeHistogram (m : PrometheusMetrics V) (name : Bytes) (value : V) (labels : List Bytes) :
    PrometheusMetrics V :=
  let buckets := m.bucketsFor name
  { m with
    histograms := upsert m.histograms (newSeriesKey name labels)
      ⟨name, labels, buckets, List.replicate buckets.length 0, 0, 0⟩
      fun hist => hist.observe value }

end PrometheusMetrics

inductive HistogramCall (V : Type)
  | register (name : Bytes) (buckets : List V)
  | observe (name : Bytes) (value : V) (labels : List Bytes)

namespace HistogramCall

variable [OfScientific V]

def apply (m : PrometheusMetrics V) : HistogramCall V → PrometheusMetrics V
  | register name buckets =>
    match m.registerHistogram name buckets with
    | .ok m' => m'
    | .error _ => m
  | observe name value labels => m.observeHistogram name value labels

def run (calls : List (HistogramCall V)) : PrometheusMetrics V := calls.foldl apply .new

theorem run_concat (calls : List (HistogramCall V)) (call : HistogramCall V) :
    run (calls ++ [call]) = apply (run calls) call := by
  rw [run, List.foldl_append]
  rfl

end HistogramCall

end Calls

/-! ### What the calls say -/

namespace HistogramCall

/-- The values observed for a series. -/
def observed {V : Type} (key : SeriesKey) : List (HistogramCall V) → List V :=
  List.filterMap fun
    | register _ _ => none
    | observe name value labels => if newSeriesKey name labels = key then some value else none

theorem observed_concat {V : Type} (key : SeriesKey) (calls : List (HistogramCall V))
    (call : HistogramCall V) :
    observed key (calls ++ [call]) = observed key calls ++ observed key [call] :=
  List.filterMap_append

theorem observed_register {V : Type} (key : SeriesKey) (calls : List (HistogramCall V))
    (name : Bytes) (buckets : List V) :
    observed key (calls ++ [.register name buckets]) = observed key calls :=
  (observed_concat key calls _).trans (List.append_nil _)

theorem observed_observe {V : Type} (key : SeriesKey) (name : Bytes) (value : V)
    (labels : List Bytes) : observed key [.observe name value labels] =
      if newSeriesKey name labels = key then [value] else [] := by
  unfold observed
  split
  · rename_i hkey
    simp [hkey]
  rename_i hkey
  simp [hkey]

variable [Zero V] [Add V] [OfScientific V]

/-- The ladder in force after one more call: that of a registration which is accepted. -/
def ladderStep (name : Bytes) (m : PrometheusMetrics V) (bounds : List V) :
    HistogramCall V → List V
  | register name' buckets =>
    if name' = name ∧ (m.registerHistogram name' buckets).isOk then buckets.insertionSort (· ≤ ·)
    else bounds
  | observe _ _ _ => bounds

/-- The ladder that the calls put in force for a name: the last one that was accepted when it
was registered, sorted, or the default. -/
def ladder (name : Bytes) (calls : List (HistogramCall V)) : List V :=
  (calls.foldl (fun s call => (apply s.1 call, ladderStep name s.1 s.2 call))
    (.new, defaultHistogramBuckets V)).2

theorem ladder_concat (name : Bytes) (calls : List (HistogramCall V)) (call : HistogramCall V) :
    ladder name (calls ++ [call]) = ladderStep name (run calls) (ladder name calls) call := by
  have hrun : ∀ (calls : List (HistogramCall V)) (m : PrometheusMetrics V) (bounds : List V),
      (calls.foldl (fun s call => (apply s.1 call, ladderStep name s.1 s.2 call)) (m, bounds)).1 =
        calls.foldl apply m := by
    intro calls
    induction calls with
    | nil =>
      intro m bounds
      rfl
    | cons call calls ih =>
      intro m bounds
      exact ih _ _
  rw [ladder, List.foldl_append, List.foldl_cons, hrun]
  rfl

end HistogramCall

/-! ### Ladders -/

/-- Sorted bounds without equal neighbours ascend strictly. -/
theorem pairwise_lt_of_firstDuplicate {l : List V} (hsorted : l.Pairwise (· ≤ ·))
    (h : firstDuplicate l = none) : l.Pairwise (· < ·) := by
  induction l with
  | nil => exact .nil
  | cons a l ih =>
    rw [List.pairwise_cons] at hsorted
    cases l with
    | nil => exact List.pairwise_singleton _ _
    | cons b l =>
      rw [firstDuplicate] at h
      split at h
      · cases h
      rename_i hne
      have hrest := ih hsorted.2 h
      have hab : a < b := (hsorted.1 b List.mem_cons_self).lt_of_ne (Ne.symm hne)
      refine List.pairwise_cons.mpr ⟨?_, hrest⟩
      intro c hc
      rcases List.mem_cons.mp hc with rfl | hc
      · exact hab
      · exact hab.trans (List.rel_of_pairwise_cons hrest hc)

theorem registerHistogram_eq_ok {m m' : PrometheusMetrics V} {name : Bytes} {buckets : List V}
    (h : m.registerHistogram name buckets = .ok m') :
    (buckets.insertionSort (· ≤ ·)).Pairwise (· < ·) ∧
      (∀ key : SeriesKey, key ∈ m.histograms → key.name ≠ name) ∧
      m' = { m with buckets := m.buckets.insert name (buckets.insertionSort (· ≤ ·)) } := by
  unfold PrometheusMetrics.registerHistogram at h
  split at h
  · cases h
  split at h
  · cases h
  dsimp only at h
  split at h
  · cases h
  rename_i hdup
  split at h
  · cases h
  rename_i hnone
  cases h
  refine ⟨pairwise_lt_of_firstDuplicate (List.pairwise_insertionSort _ _) hdup, ?_, rfl⟩
  intro key hkey hname
  refine hnone (List.any_eq_true.mpr ⟨key, ExtTreeMap.mem_keys.mpr hkey, ?_⟩)
  exact decide_eq_true hname

/-- A name that has a series is not registered any more. -/
theorem registerHistogram_observed {m : PrometheusMetrics V} {key : SeriesKey}
    (hkey : key ∈ m.histograms) (buckets : List V) :
    ∃ err, m.registerHistogram key.name buckets = .error err := by
  cases hreg : m.registerHistogram key.name buckets with
  | error err => exact ⟨err, rfl⟩
  | ok m' => exact absurd rfl ((registerHistogram_eq_ok hreg).2.1 key hkey)

/-! ### Counters -/

section Counters

variable [Zero V] [Add V]

/-- The counters of a series after its observations. -/
structure Counted (hist : PromHistogram V) (values : List V) : Prop where
  counts : hist.counts = tally UInt64.ofNat hist.buckets values
  count : hist.count = UInt64.ofNat values.length
  sum : hist.sum = values.foldl (· + ·) 0

namespace Counted

variable {hist : PromHistogram V} {values : List V}

theorem start (name : Bytes) (labels : List Bytes) (buckets : List V) :
    Counted ⟨name, labels, buckets, List.replicate buckets.length 0, 0, 0⟩ [] := by
  refine ⟨?_, rfl, rfl⟩
  show List.replicate buckets.length (UInt64.ofNat 0) = tally UInt64.ofNat buckets []
  rw [tally_nil]

theorem observe (h : Counted hist values) (value : V) :
    Counted (hist.observe value) (values ++ [value]) := by
  have hsucc : ∀ n : ℕ, UInt64.ofNat n + 1 = UInt64.ofNat (n + 1) := fun n =>
    (UInt64.ofNat_add n 1).symm
  refine ⟨?_, ?_, ?_⟩
  · show place (· + 1) hist.buckets hist.counts value = tally UInt64.ofNat hist.buckets _
    rw [h.counts, place_tally hsucc]
  · show hist.count + 1 = _
    rw [h.count, hsucc, List.length_append, List.length_singleton]
  · show hist.sum + value = _
    rw [h.sum, List.foldl_append, List.foldl_cons, List.foldl_nil]

end Counted

/-- The lines of the buckets are their bounds with the sums of the counters. -/
theorem bucketLines_eq {V : Type} (formatFloat : V → Bytes) (hist : PromHistogram V) (sum : UInt64)
    (bounds : List V) (counts : List UInt64) :
    hist.bucketLines formatFloat sum (bounds.zip counts) =
      List.zipWith (fun bound n => hist.bucketLine (formatFloat bound) n) bounds
        (partialSums sum counts) := by
  induction bounds generalizing sum counts with
  | nil => rfl
  | cons bound bounds ih =>
    cases counts with
    | nil => rfl
    | cons n counts =>
      rw [List.zip_cons_cons, PromHistogram.bucketLines, partialSums, List.zipWith_cons_cons, ih]

/-- What is exported for a series: a line for each bound, which counts the values up to it. -/
theorem Counted.lines {hist : PromHistogram V} {values : List V} (h : Counted hist values)
    (hsorted : hist.buckets.Pairwise (· < ·)) (formatFloat : V → Bytes) : hist.lines formatFloat =
      (hist.buckets.map fun bound =>
        hist.bucketLine (formatFloat bound) (UInt64.ofNat (values.countP (· ≤ bound)))) ++
      [hist.bucketLine (ascii "+Inf") hist.count,
        .sample (hist.name ++ ascii "_count") (labelsOf hist.labels) (decimal hist.count.toNat),
        .sample (hist.name ++ ascii "_sum") (labelsOf hist.labels) (formatFloat hist.sum)] := by
  have hsums : partialSums (UInt64.ofNat 0) (tally UInt64.ofNat hist.buckets values) =
      hist.buckets.map fun bound => UInt64.ofNat (0 + values.countP (· ≤ bound)) :=
    partialSums_tally (fun m n => (UInt64.ofNat_add m n).symm) (hsorted.imp fun hlt => hlt.le) 0
      values
  rw [PromHistogram.lines, bucketLines_eq, h.counts]
  refine congrArg (· ++ _) ?_
  refine Eq.trans (congrArg (List.zipWith _ hist.buckets) hsums) ?_
  rw [List.zipWith_map_right]
  simp

end Counters

/-! ### Runs -/

section Runs

variable [Zero V] [Add V] [OfScientific V]

open HistogramCall

theorem bucketsFor_insert {V : Type} [OfScientific V] (m : PrometheusMetrics V) (name : Bytes)
    (bounds : List V) (n : Bytes) :
    ({ m with buckets := m.buckets.insert name bounds } : PrometheusMetrics V).bucketsFor n =
      if name = n then bounds else m.bucketsFor n := by
  rw [PrometheusMetrics.bucketsFor, ExtTreeMap.getElem?_insert]
  simp only [Std.compare_eq_iff_eq]
  split <;> rfl

/-- The tables after the calls. -/
structure Inv (calls : List (HistogramCall V)) (m : PrometheusMetrics V) : Prop where
  ladders : ∀ name, m.bucketsFor name = ladder name calls
  ascending : ∀ name, (m.bucketsFor name).Pairwise (· < ·)
  series : ∀ (key : SeriesKey) (hist : PromHistogram V), m.histograms[key]? = some hist →
    newSeriesKey hist.name hist.labels = key ∧ hist.buckets = m.bucketsFor hist.name ∧
      Counted hist (observed key calls)
  unseen : ∀ key : SeriesKey, m.histograms[key]? = none → observed key calls = []

variable {calls : List (HistogramCall V)} {m m' : PrometheusMetrics V} {name : Bytes}
  {buckets : List V}

theorem Inv.refused (h : Inv calls (run calls)) {err : RegisterErr V}
    (hreg : (run calls).registerHistogram name buckets = .error err) :
    Inv (calls ++ [.register name buckets]) (run calls) := by
  refine ⟨?_, h.ascending, ?_, ?_⟩
  · intro n
    rw [ladder_concat, ladderStep, hreg, if_neg (by simp [Except.isOk, Except.toBool])]
    exact h.ladders n
  · intro key hist hk
    rw [observed_register]
    exact h.series key hist hk
  · intro key hk
    rw [observed_register]
    exact h.unseen key hk

theorem Inv.accepted (h : Inv calls (run calls))
    (hreg : (run calls).registerHistogram name buckets = .ok m') :
    Inv (calls ++ [.register name buckets]) m' := by
  obtain ⟨hasc, hfree, rfl⟩ := registerHistogram_eq_ok hreg
  refine ⟨?_, ?_, ?_, ?_⟩
  · intro n
    rw [ladder_concat, ladderStep, hreg, bucketsFor_insert, h.ladders n]
    simp [Except.isOk, Except.toBool]
  · intro n
    rw [bucketsFor_insert]
    split
    · exact hasc
    · exact h.ascending n
  · intro key hist hk
    obtain ⟨hkey, hbuckets, hcounted⟩ := h.series key hist hk
    -- the name is not that of a series
    have hne : name ≠ hist.name := by
      intro hname
      refine hfree key (mem_iff_getElem?.mpr ⟨hist, hk⟩) ?_
      rw [← hkey, newSeriesKey_name, hname]
    rw [observed_register, bucketsFor_insert, if_neg hne]
    exact ⟨hkey, hbuckets, hcounted⟩
  · intro key hk
    rw [observed_register]
    exact h.unseen key hk

theorem Inv.observe (h : Inv calls (run calls)) (name : Bytes) (value : V) (labels : List Bytes) :
    Inv (calls ++ [.observe name value labels])
      ((run calls).observeHistogram name value labels) := by
  refine ⟨?_, h.ascending, ?_, ?_⟩
  · intro n
    rw [ladder_concat]
    exact h.ladders n
  · intro key hist hk
    rw [observed_concat, observed_observe]
    rw [PrometheusMetrics.observeHistogram, getElem?_upsert] at hk
    split at hk
    · rename_i hkey
      rw [if_pos hkey]
      cases hk
      cases hold : (run calls).histograms[key]? with
      | none =>
        rw [h.unseen key hold]
        exact ⟨hkey, rfl, (Counted.start name labels _).observe value⟩
      | some old =>
        obtain ⟨hk, hbuckets, hcounted⟩ := h.series key old hold
        exact ⟨hk, hbuckets, hcounted.observe value⟩
    · rename_i hkey
      rw [if_neg hkey, List.append_nil]
      exact h.series key hist hk
  · intro key hk
    rw [PrometheusMetrics.observeHistogram, getElem?_upsert] at hk
    split at hk
    · cases hk
    rename_i hkey
    rw [observed_concat, observed_observe, if_neg hkey, List.append_nil]
    exact h.unseen key hk

theorem inv_run (hdefault : (defaultHistogramBuckets V).Pairwise (· < ·))
    (calls : List (HistogramCall V)) : Inv calls (run calls) := by
  induction calls using List.reverseRecOn with
  | nil =>
    refine ⟨?_, ?_, ?_, ?_⟩
    · intro name
      simp [run, PrometheusMetrics.new, PrometheusMetrics.bucketsFor, ladder]
    · intro name
      simpa [run, PrometheusMetrics.new, PrometheusMetrics.bucketsFor] using hdefault
    · intro key hist hk
      simp [run, PrometheusMetrics.new] at hk
    · intro key _
      rfl
  | append_singleton calls call ih =>
    rw [run_concat]
    cases call with
    | register name buckets =>
      rw [apply]
      cases hreg : (run calls).registerHistogram name buckets with
      | error err => exact ih.refused hreg
      | ok m' => exact ih.accepted hreg
    | observe name value labels => exact ih.observe name value labels

/-- A series that was observed has an entry with its observations. -/
theorem Inv.exists_series (h : Inv calls m) {name : Bytes} {labels : List Bytes}
    (hseen : observed (newSeriesKey name labels) calls ≠ []) :
    ∃ hist, m.histograms[newSeriesKey name labels]? = some hist ∧ hist.name = name ∧
      newSeriesKey name hist.labels = newSeriesKey name labels ∧ hist.buckets = m.bucketsFor name ∧
      Counted hist (observed (newSeriesKey name labels) calls) := by
  cases hk : m.histograms[newSeriesKey name labels]? with
  | none => exact absurd (h.unseen _ hk) hseen
  | some hist =>
    obtain ⟨hkey, hbuckets, hcounted⟩ := h.series _ hist hk
    have hname : hist.name = name := by
      rw [← newSeriesKey_name hist.name hist.labels, hkey, newSeriesKey_name]
    rw [hname] at hkey hbuckets
    exact ⟨hist, rfl, hname, hkey, hbuckets, hcounted⟩

end Runs

theorem infix_declaring {S : Type} {name : S → Bytes} {typ : Bytes} {samples : S → List Line}
    {series : S} {all : List S} (h : series ∈ all) (declared : List Bytes) :
    samples series <:+: declaring name typ samples declared all := by
  induction all generalizing declared with
  | nil => cases h
  | cons first rest ih =>
    rw [declaring_cons]
    rcases List.mem_cons.mp h with rfl | h
    · split
      · exact (List.prefix_append _ _).isInfix
      · exact List.infix_append [_] _ _
    · split <;> exact (ih h _).trans (List.suffix_append _ _).isInfix

/-- **The exported histogram counts its observations**, as long as they are fewer than 2⁶⁴
(`histogram_wraps`).  After any calls of `RegisterHistogram` and `ObserveHistogram`, a series
that was observed has the ladder that was last accepted for its name, sorted, or the default.
Its lines stand in the export: each bound with the number of observations up to it, then the
number of all for `+Inf` and as the count.  The numbers do not decrease.  A registration of
that name is now refused and changes nothing. -/
theorem histogram_counts [Zero V] [Add V] [OfScientific V]
    (hdefault : (defaultHistogramBuckets V).Pairwise (· < ·)) (calls : List (HistogramCall V))
    (name : Bytes) (labels : List Bytes) (values : List V)
    (hvalues : HistogramCall.observed (newSeriesKey name labels) calls = values)
    (hseen : values ≠ []) (hfew : values.length < 18446744073709551616)
    (formatFloat : V → Bytes) (walks : Walks V) :
    ∃ hist : PromHistogram V,
      (HistogramCall.run calls).histograms[newSeriesKey name labels]? = some hist ∧
      hist.name = name ∧ newSeriesKey name hist.labels = newSeriesKey name labels ∧
      hist.buckets = HistogramCall.ladder name calls ∧
      hist.lines formatFloat <:+: (HistogramCall.run calls).histogramLines formatFloat walks ∧
      hist.lines formatFloat =
        (hist.buckets.map fun bound => .sample (name ++ ascii "_bucket")
          (promLabelsWithBucket hist.labels (formatFloat bound))
          (decimal (values.countP (· ≤ bound)))) ++
        [.sample (name ++ ascii "_bucket") (promLabelsWithBucket hist.labels (ascii "+Inf"))
            (decimal values.length),
          .sample (name ++ ascii "_count") (labelsOf hist.labels) (decimal values.length),
          .sample (name ++ ascii "_sum") (labelsOf hist.labels)
            (formatFloat (values.foldl (· + ·) 0))] ∧
      (hist.buckets.map fun bound => values.countP (· ≤ bound)).Pairwise (· ≤ ·) ∧
      ∀ buckets, (∃ err, (HistogramCall.run calls).registerHistogram name buckets = .error err) ∧
        HistogramCall.apply (HistogramCall.run calls) (.register name buckets) =
          HistogramCall.run calls := by
  subst hvalues
  have hinv := inv_run hdefault calls
  obtain ⟨hist, hk, hname, hlabels, hbuckets, hcounted⟩ := hinv.exists_series hseen
  have hasc : hist.buckets.Pairwise (· < ·) := by
    rw [hbuckets]
    exact hinv.ascending name
  have hnat : ∀ n ≤ (HistogramCall.observed (newSeriesKey name labels) calls).length,
      (UInt64.ofNat n).toNat = n := by
    intro n hn
    exact Nat.mod_eq_of_lt (by omega)
  refine ⟨hist, hk, hname, hlabels, by rw [hbuckets, hinv.ladders], ?_, ?_, ?_, ?_⟩
  · refine infix_declaring ?_ []
    rw [sortedHistograms, List.mem_insertionSort, WalkOrder.mem_values]
    exact ⟨_, hk⟩
  · rw [hcounted.lines hasc, hcounted.count, hcounted.sum]
    refine congrArg₂ (· ++ ·) (List.map_congr_left fun bound _ => ?_) ?_
    · rw [PromHistogram.bucketLine, hname, hnat _ List.countP_le_length]
    · rw [PromHistogram.bucketLine, hname, hnat _ le_rfl]
  · exact List.pairwise_map.mpr (hasc.imp fun hlt => countP_le_countP hlt.le _)
  · intro buckets
    have hkey := newSeriesKey_name name labels
    obtain ⟨err, herr⟩ := registerHistogram_observed (mem_iff_getElem?.mpr ⟨hist, hk⟩) buckets
    rw [hkey] at herr
    exact ⟨⟨err, herr⟩, by rw [HistogramCall.apply, herr]⟩

theorem pairwise_defaultHistogramBuckets : (defaultHistogramBuckets ℚ).Pairwise (· < ·) := by
  decide +kernel

/-- Bounds in any order, and observations below, between and above them. -/
def sizeCalls : List (HistogramCall ℚ) :=
  [.register [0x68] [2, 1], .observe [0x68] 3 [], .observe [0x68] 1 [], .observe [0x68] 2 []]

def formatNum (q : ℚ) : Bytes := decimal q.num

theorem histogram_counts_sizeCalls : ∃ hist : PromHistogram ℚ,
    (HistogramCall.run sizeCalls).histograms[newSeriesKey [0x68] []]? = some hist ∧
      hist.buckets = [1, 2] ∧
      .sample (ascii "h_bucket") (promLabelsWithBucket hist.labels [0x32]) [0x32] ∈
        hist.lines formatNum := by
  obtain ⟨hist, hk, -, -, hbuckets, -, hlines, -⟩ :=
    histogram_counts pairwise_defaultHistogramBuckets sizeCalls [0x68] [] [3, 1, 2] (by decide)
      (by decide) (by decide) formatNum ⟨.id, .id, .id⟩
  have hladder : hist.buckets = [1, 2] := hbuckets.trans (by decide +kernel)
  refine ⟨hist, hk, hladder, ?_⟩
  rw [hlines, hladder]
  exact List.mem_append_left _ (List.mem_map.mpr ⟨2, by simp, rfl⟩)

/-- After 2⁶⁴ observations the count is 0. -/
theorem histogram_wraps : ∃ (calls : List (HistogramCall ℚ)) (hist : PromHistogram ℚ),
    (HistogramCall.run calls).histograms[newSeriesKey [0x68] []]? = some hist ∧
      (HistogramCall.observed (newSeriesKey [0x68] []) calls).length = 18446744073709551616 ∧
      .sample (ascii "h_count") (labelsOf hist.labels) [0x30] ∈ hist.lines formatNum := by
  -- the number stays a variable, so that nothing computes the list
  obtain ⟨n, hn⟩ : ∃ n : ℕ, n = 18446744073709551616 := ⟨_, rfl⟩
  let call : HistogramCall ℚ := .observe [0x68] 0 []
  have hobs : HistogramCall.observed (newSeriesKey [0x68] []) (List.replicate n call) =
      List.replicate n 0 := by
    unfold HistogramCall.observed
    rw [List.filterMap_replicate_of_some]
    rfl
  have hlength := congrArg List.length hobs
  rw [List.length_replicate] at hlength
  have hne : HistogramCall.observed (newSeriesKey [0x68] []) (List.replicate n call) ≠ [] := by
    rw [← List.length_pos_iff]
    omega
  have hinv := inv_run pairwise_defaultHistogramBuckets (List.replicate n call)
  obtain ⟨hist, hk, hname, -, -, hcounted⟩ := hinv.exists_series hne
  have hcount : hist.count = 0 := by
    rw [hcounted.count, hlength, hn]
    decide
  refine ⟨List.replicate n call, hist, hk, hlength.trans hn, ?_⟩
  rw [PromHistogram.lines, hname, hcount]
  refine List.mem_append_right _ ?_
  exact List.mem_cons_of_mem _ List.mem_cons_self

end SharkSocket.Infra
