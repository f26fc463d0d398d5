import SharkSocket.Infra.LabelBlock

/-!
# The samples in an exported text

A reader of the exposition format takes a text apart at the newlines.  A line that is not
empty and no comment is a sample (`sampleLines`); its name ends at a brace or a blank, and
behind the labels stands the value (`parseSample`).

A table has one entry for each key, with the labels of the call that made it (`created`).
`exposition_no_duplicates` says for which calls no two samples of a table have the same name
and labels: when no two series of a metric have the same labels once the names are
sanitised, and the distinct names of one call stay distinct (`RendersApart`, against
`exposition_duplicates`).
-/

namespace SharkSocket.Infra

open Std Lib

/-! ### Reading a text -/

def sampleLines (text : Bytes) : List Bytes :=
  (List.splitOn 0x0a text).filter fun line => line ≠ [] && line.head? ≠ some 0x23

/-- The name and the labels of a sample. -/
abbrev Sample := Bytes × List (Bytes × Bytes)

def parseSample (line : Bytes) : Option Sample :=
  let name := line.takeWhile fun b => b != 0x7b && b != 0x20
  match line.dropWhile fun b => b != 0x7b && b != 0x20 with
  | 0x20 :: _ => some (name, [])
  | 0x7b :: rest =>
    match readLabels rest.length rest with
    | some (labels, 0x20 :: _) => some (name, labels)
    | _ => none
  | _ => none

/-- A metric name that ends where the labels begin, on one line that is no comment. -/
def PlainName (name : Bytes) : Prop :=
  0x7b ∉ name ∧ 0x20 ∉ name ∧ 0x0a ∉ name ∧ name.head? ≠ some 0x23

instance (name : Bytes) : Decidable (PlainName name) := inferInstanceAs (Decidable (_ ∧ _))

variable {name value : Bytes} {labels : List Bytes}

/-- A sample line, without its newline. -/
def sampleText (name : Bytes) (labels : List Label) (value : Bytes) : Bytes :=
  name ++ (renderLabels labels ++ 0x20 :: value)

theorem newline_notMem_renderLabels (labels : List Bytes) :
    0x0a ∉ renderLabels (labelsOf labels) := by
  have hlabel : ∀ text ∈ ((renderedLabels labels).map labelOf).map Label.text, 0x0a ∉ text := by
    simp only [List.map_map, List.forall_mem_map, Function.comp_apply]
    intro p hp
    have hname : 0x0a ∉ p.1 := fun h => absurd (isNameByte_renderedLabels hp 0x0a h) (by decide)
    simp [Label.text, labelOf, hname, newline_notMem_escapeLabelValue]
  rw [labelsOf_eq_map, renderLabels]
  split
  · exact List.not_mem_nil
  have hjoin : 0x0a ∉
      List.intercalate [0x2c] (((renderedLabels labels).map labelOf).map Label.text) := by
    intro h
    rcases mem_intercalate h with hsep | ⟨text, htext, hmem⟩
    · exact absurd hsep (by decide)
    · exact hlabel text htext hmem
  simpa using hjoin

/-- **A sample line is read back.** -/
theorem parseSample_sampleText (hname : PlainName name) (labels : List Bytes) (value : Bytes) :
    parseSample (sampleText name (labelsOf labels) value) = some (name, renderedLabels labels) := by
  have hpass : ∀ b ∈ name, (b != 0x7b && b != 0x20) = true := by
    intro b hb
    rw [Bool.and_eq_true, bne_iff_ne, bne_iff_ne]
    exact ⟨fun h => hname.1 (h ▸ hb), fun h => hname.2.1 (h ▸ hb)⟩
  have heq := eq_notMem_renderedLabels labels
  rw [labelsOf_eq_map, sampleText, parseSample, List.takeWhile_append_of_pos hpass,
    List.dropWhile_append_of_pos hpass]
  by_cases hnil : renderedLabels labels = []
  · rw [hnil]
    show some (name ++ [], _) = _
    rw [List.append_nil]
  obtain ⟨block, hblock, hread⟩ := readLabels_block hnil heq (0x20 :: value)
  rw [hblock]
  show (match readLabels (block ++ 0x20 :: value).length (block ++ 0x20 :: value) with
    | some (labels, 0x20 :: _) => some (name ++ [], labels)
    | _ => none) = _
  rw [hread, List.append_nil]
  rfl

theorem sampleLines_type {typ : Bytes} (hname : 0x0a ∉ name) (htyp : 0x0a ∉ typ) (rest : Bytes) :
    sampleLines ((Line.type name typ).text ++ rest) = sampleLines rest := by
  have hword : 0x0a ∉ ascii "# TYPE " := by decide +kernel
  have hbody : 0x0a ∉ ascii "# TYPE " ++ (name ++ 0x20 :: typ) := by simp [hword, hname, htyp]
  have htext : (Line.type name typ).text ++ rest =
      ascii "# TYPE " ++ (name ++ 0x20 :: typ) ++ 0x0a :: rest := by
    simp [Line.text]
  rw [htext, sampleLines, List.splitOn_append_cons_self_of_not_mem hbody]
  rfl

theorem sampleLines_sample (hname : PlainName name) (hvalue : 0x0a ∉ value) (rest : Bytes) :
    sampleLines ((Line.sample name (labelsOf labels) value).text ++ rest) =
      sampleText name (labelsOf labels) value :: sampleLines rest := by
  have hbody : 0x0a ∉ sampleText name (labelsOf labels) value := by
    simp [sampleText, hname.2.2.1, newline_notMem_renderLabels, hvalue]
  have htext : (Line.sample name (labelsOf labels) value).text ++ rest =
      sampleText name (labelsOf labels) value ++ 0x0a :: rest := by
    simp [Line.text, sampleText]
  -- a name that is empty is followed by a brace or a blank
  have hhead : (sampleText name (labelsOf labels) value).head? ≠ some 0x23 := by
    cases name with
    | cons b name => exact hname.2.2.2
    | nil =>
      unfold sampleText renderLabels
      split <;> simp
  have hne : sampleText name (labelsOf labels) value ≠ [] := by simp [sampleText]
  rw [htext, sampleLines, List.splitOn_append_cons_self_of_not_mem hbody,
    List.filter_cons_of_pos (by simp [hne, hhead])]
  rfl

/-! ### The tables -/

variable {V : Type}

/-- The name and the labels of a call. -/
abbrev Series := Bytes × List Bytes

def seriesKey (c : Series) : SeriesKey := newSeriesKey c.1 c.2

/-- A call with a key that is not there yet makes a series. -/
def addSeries (series : List Series) (c : Series) : List Series :=
  if ∃ d ∈ series, seriesKey d = seriesKey c then series else series ++ [c]

/-- The series that calls make: the first of each key. -/
def created (calls : List Series) : List Series :=
  calls.foldl addSeries []

theorem subset_addSeries (series : List Series) (c : Series) :
    series ⊆ addSeries series c := by
  unfold addSeries
  split
  · exact List.Subset.refl series
  · exact List.subset_append_left series [c]

theorem created_subset (calls : List Series) : created calls ⊆ calls := by
  induction calls using List.reverseRecOn with
  | nil => exact List.Subset.refl []
  | append_singleton calls c ih =>
    have hcalls := List.subset_append_of_subset_left [c] ih
    rw [created, List.foldl_append, List.foldl_cons, List.foldl_nil, addSeries]
    split
    · exact hcalls
    · exact List.append_subset.mpr ⟨hcalls, List.subset_append_right calls [c]⟩

def PromMetric.series (metric : PromMetric V) : Series := (metric.name, metric.labels)

/-- The table has one entry for each series, under its key. -/
structure Tracks (table : ExtTreeMap SeriesKey (PromMetric V)) (series : List Series) :
    Prop where
  key : ∀ (key : SeriesKey) (metric : PromMetric V), table[key]? = some metric →
    seriesKey metric.series = key ∧ metric.series ∈ series
  entry : ∀ c ∈ series, ∃ metric, table[seriesKey c]? = some metric ∧ metric.series = c

variable {table : ExtTreeMap SeriesKey (PromMetric V)} {series : List Series}
  (walk : WalkOrder (SeriesKey × PromMetric V))

theorem Tracks.upsert (h : Tracks table series) (c : Series) (zero : V)
    {f : PromMetric V → PromMetric V} (hf : ∀ metric, (f metric).series = metric.series) :
    Tracks (upsert table (seriesKey c) ⟨c.1, c.2, zero⟩ f) (addSeries series c) := by
  -- the key is free exactly if no series has it
  have hfree : table[seriesKey c]? = none → addSeries series c = series ++ [c] := by
    intro hnone
    refine if_neg ?_
    rintro ⟨d, hd, hkey⟩
    obtain ⟨metric, hmetric, -⟩ := h.entry d hd
    rw [hkey, hnone] at hmetric
    cases hmetric
  constructor
  · intro key metric hm
    rw [getElem?_upsert] at hm
    split at hm
    · rename_i hkey
      cases hm
      rw [hf]
      cases hold : table[key]? with
      | none =>
        rw [hfree (hkey ▸ hold)]
        exact ⟨hkey, by simp [PromMetric.series]⟩
      | some old => exact ⟨(h.key key old hold).1, subset_addSeries _ _ (h.key key old hold).2⟩
    · exact ⟨(h.key key metric hm).1, subset_addSeries _ _ (h.key key metric hm).2⟩
  · intro d hd
    rw [getElem?_upsert]
    by_cases hmem : d ∈ series
    · obtain ⟨metric, hmetric, hseries⟩ := h.entry d hmem
      rw [hmetric]
      split
      · exact ⟨_, rfl, (hf _).trans hseries⟩
      · exact ⟨metric, rfl, hseries⟩
    · rw [addSeries] at hd
      split at hd
      · exact absurd hd hmem
      rename_i hnew
      obtain rfl : d = c := by simpa [hmem] using hd
      rw [if_pos rfl]
      refine ⟨_, rfl, (hf _).trans ?_⟩
      cases hold : table[seriesKey d]? with
      | none => rfl
      | some old => exact absurd ⟨_, (h.key _ old hold).2, (h.key _ old hold).1⟩ hnew

inductive MetricCall (V : Type)
  | incCounter (name : Bytes) (labels : List Bytes)
  | setGauge (name : Bytes) (value : V) (labels : List Bytes)

namespace MetricCall

variable [Zero V] [One V] [Add V] (calls : List (MetricCall V))

def apply (m : PrometheusMetrics V) : MetricCall V → PrometheusMetrics V
  | incCounter name labels => m.incCounter name labels
  | setGauge name value labels => m.setGauge name value labels

def counterSeries : List (MetricCall V) → List Series :=
  List.filterMap fun
    | incCounter name labels => some (name, labels)
    | setGauge _ _ _ => none

def gaugeSeries : List (MetricCall V) → List Series :=
  List.filterMap fun
    | incCounter _ _ => none
    | setGauge name _ labels => some (name, labels)

theorem tracks_run :
    Tracks (calls.foldl apply .new).counters (created (counterSeries calls)) ∧
      Tracks (calls.foldl apply .new).gauges (created (gaugeSeries calls)) := by
  induction calls using List.reverseRecOn with
  | nil =>
    have hempty : Tracks (∅ : ExtTreeMap SeriesKey (PromMetric V)) [] := ⟨by simp, by simp⟩
    exact ⟨hempty, hempty⟩
  | append_singleton calls call ih =>
    rw [List.foldl_append, List.foldl_cons, counterSeries, gaugeSeries,
      List.filterMap_append, List.filterMap_append, created, created, List.foldl_append,
      List.foldl_append]
    cases call with
    | incCounter name labels => exact ⟨ih.1.upsert (name, labels) 0 fun _ => rfl, ih.2⟩
    | setGauge name value labels =>
      exact ⟨ih.1,
        ih.2.upsert (name, labels) 0 (f := fun gauge => { gauge with value }) fun _ => rfl⟩

/-- These calls make no histogram. -/
theorem histogramLines_run (formatFloat : V → Bytes) (walks : Walks V) :
    (calls.foldl apply .new).histogramLines formatFloat walks = [] := by
  have hempty : (calls.foldl apply .new).histograms = (∅ : ExtTreeMap SeriesKey _) := by
    induction calls using List.reverseRecOn with
    | nil => rfl
    | append_singleton calls call ih =>
      rw [List.foldl_append, ← ih]
      cases call <;> rfl
  have hnil : sortedHistograms walks.histograms
      (∅ : ExtTreeMap SeriesKey (PromHistogram V)) = [] := by
    refine List.length_eq_zero_iff.mp ?_
    rw [sortedHistograms, List.length_insertionSort, WalkOrder.length_values]
    rfl
  rw [PrometheusMetrics.histogramLines, writePromHistograms, hempty, hnil]
  rfl

end MetricCall

/-! ### Samples -/

/-- The sample that a series is read back as. -/
def rendered (c : Series) : Sample := (c.1, renderedLabels c.2)

/-- Two samples that differ in their names or in their sets of labels. -/
def Apart (s t : Sample) : Prop := s.1 = t.1 → ¬ (s.2 ⊆ t.2 ∧ t.2 ⊆ s.2)

/-- The text of one table: every sample line is read, no two samples have the same name and
the same set of labels, and each has the labels of a series, with distinct names if the
caller gave distinct ones. -/
def NoDuplicates (series : List Series) (text : Bytes) : Prop :=
  ∃ samples : List Sample,
    (sampleLines text).map parseSample = samples.map some ∧
    samples.Pairwise Apart ∧
    ∀ s ∈ samples, ∃ c ∈ series, rendered c = s ∧
      (((namedLabels c.2).map Prod.fst).Nodup → (s.2.map Prod.fst).Nodup)

/-- Series that stay apart when their label names are sanitised: two of one metric have
different sets of labels, and the distinct names of one stay distinct. -/
structure RendersApart (series : List Series) : Prop where
  labels : ∀ c ∈ series, ∀ d ∈ series, c.1 = d.1 → renderedLabels c.2 ⊆ renderedLabels d.2 →
    renderedLabels d.2 ⊆ renderedLabels c.2 → c = d
  names : ∀ c ∈ series, ((namedLabels c.2).map Prod.fst).Nodup →
    ((renderedLabels c.2).map Prod.fst).Nodup

theorem Tracks.nodup_sortedMetrics (h : Tracks table series) :
    (sortedMetrics walk table).Nodup := by
  refine (List.perm_insertionSort _ _).nodup_iff.mpr ?_
  exact WalkOrder.nodup_values (fun metric => seriesKey metric.series)
    fun key metric hm => (h.key key metric hm).1

theorem Tracks.of_sorted (h : Tracks table series) {metric : PromMetric V}
    (hm : metric ∈ sortedMetrics walk table) :
    table[seriesKey metric.series]? = some metric ∧ metric.series ∈ series := by
  rw [sortedMetrics, List.mem_insertionSort, WalkOrder.mem_values] at hm
  obtain ⟨key, hkey⟩ := hm
  obtain ⟨rfl, hmem⟩ := h.key key metric hkey
  exact ⟨hkey, hmem⟩

theorem Tracks.exists_sorted (h : Tracks table series) {c : Series} (hc : c ∈ series) :
    ∃ metric ∈ sortedMetrics walk table, metric.series = c := by
  obtain ⟨metric, hmetric, hseries⟩ := h.entry c hc
  refine ⟨metric, ?_, hseries⟩
  rw [sortedMetrics, List.mem_insertionSort, WalkOrder.mem_values]
  exact ⟨_, hmetric⟩

section Text

variable {formatFloat : V → Bytes} (hfloat : ∀ v, 0x0a ∉ formatFloat v)

include hfloat

theorem sampleLines_declaring {typ : Bytes} (htyp : 0x0a ∉ typ) (declared : List Bytes)
    {all : List (PromMetric V)} (hplain : ∀ metric ∈ all, PlainName metric.name) :
    sampleLines ((declaring PromMetric.name typ (fun metric => [metric.line formatFloat])
      declared all).flatMap Line.text) = all.map fun metric =>
        sampleText metric.name (labelsOf metric.labels) (formatFloat metric.value) := by
  induction all generalizing declared with
  | nil => rfl
  | cons metric rest ih =>
    obtain ⟨hfirst, hrest⟩ := List.forall_mem_cons.mp hplain
    rw [declaring_cons]
    split
    · rw [List.flatMap_append, List.flatMap_singleton, PromMetric.line,
        sampleLines_sample hfirst (hfloat _), ih declared hrest, List.map_cons]
    rw [List.cons_append, List.flatMap_cons, sampleLines_type hfirst.2.2.1 htyp,
      List.flatMap_append, List.flatMap_singleton, PromMetric.line,
      sampleLines_sample hfirst (hfloat _), ih _ hrest, List.map_cons]

/-- The samples of a table, as they are read off its text. -/
theorem Tracks.samples (h : Tracks table series) (hplain : ∀ c ∈ series, PlainName c.1)
    {typ : Bytes} (htyp : 0x0a ∉ typ) :
    (sampleLines ((writePromMetrics formatFloat walk typ table).flatMap Line.text)).map parseSample =
      ((sortedMetrics walk table).map fun metric => rendered metric.series).map some := by
  have hnames : ∀ metric ∈ sortedMetrics walk table, PlainName metric.name := by
    intro metric hm
    exact hplain _ (h.of_sorted walk hm).2
  rw [writePromMetrics, sampleLines_declaring hfloat htyp [] hnames, List.map_map, List.map_map]
  refine List.map_congr_left fun metric hm => ?_
  exact parseSample_sampleText (hnames metric hm) metric.labels _

/-- **The text of a table has no duplicates iff its series are rendered apart.** -/
theorem Tracks.noDuplicates_iff (h : Tracks table series) (hplain : ∀ c ∈ series, PlainName c.1)
    {typ : Bytes} (htyp : 0x0a ∉ typ) :
    NoDuplicates series ((writePromMetrics formatFloat walk typ table).flatMap Line.text) ↔
      RendersApart series := by
  have hread := h.samples walk hfloat hplain htyp
  constructor
  · rintro ⟨samples, hsamples, happart, hnames⟩
    obtain rfl : (sortedMetrics walk table).map (fun metric => rendered metric.series) = samples :=
      List.map_injective_iff.mpr (Option.some_injective _) (hread.symm.trans hsamples)
    have hsymm : Std.Symm fun a b : PromMetric V => Apart (rendered a.series) (rendered b.series) :=
      ⟨fun _ _ happ hname hboth => happ hname.symm hboth.symm⟩
    have hlabels : ∀ c ∈ series, ∀ d ∈ series, c.1 = d.1 → renderedLabels c.2 ⊆ renderedLabels d.2 →
        renderedLabels d.2 ⊆ renderedLabels c.2 → c = d := by
      intro c hc d hd hname hsub hsub'
      obtain ⟨a, ha, rfl⟩ := h.exists_sorted walk hc
      obtain ⟨b, hb, rfl⟩ := h.exists_sorted walk hd
      by_contra hne
      have hab := (List.pairwise_map.mp happart).forall ha hb fun heq => hne (congrArg _ heq)
      exact hab hname ⟨hsub, hsub'⟩
    refine ⟨hlabels, ?_⟩
    intro c hc hnodup
    obtain ⟨a, ha, rfl⟩ := h.exists_sorted walk hc
    obtain ⟨d, hd, heq, hd'⟩ := hnames _ (List.mem_map_of_mem ha)
    have hlist : renderedLabels d.2 = renderedLabels a.series.2 := congrArg Prod.snd heq
    have hname : (rendered d).1 = (rendered a.series).1 := congrArg Prod.fst heq
    obtain rfl := hlabels d hd _ hc hname (hlist ▸ List.Subset.refl _)
      (hlist ▸ List.Subset.refl _)
    exact hd' hnodup
  · intro happart
    refine ⟨_, hread, List.pairwise_map.mpr ?_, ?_⟩
    · refine (h.nodup_sortedMetrics walk).pairwise_of_forall_ne ?_
      rintro a ha b hb hne hname ⟨hsub, hsub'⟩
      obtain ⟨hka, hmema⟩ := h.of_sorted walk ha
      obtain ⟨hkb, hmemb⟩ := h.of_sorted walk hb
      rw [happart.labels _ hmema _ hmemb hname hsub hsub', hkb] at hka
      exact hne (Option.some.inj hka).symm
    · intro s hs
      obtain ⟨metric, hm, rfl⟩ := List.mem_map.mp hs
      have hc := (h.of_sorted walk hm).2
      exact ⟨_, hc, rfl, happart.names _ hc⟩

end Text

/-- A counter with two values of one label, and a gauge. -/
def apartCalls : List (MetricCall WholeFloat) :=
  [.incCounter [0x78] [[0x61], [0x31]], .incCounter [0x78] [[0x61], [0x22]],
    .setGauge [0x78] 1 [[0x61], [0x31]]]

def formatWhole (v : WholeFloat) : Bytes := decimal v.toNat

theorem newline_notMem_formatWhole (v : WholeFloat) : 0x0a ∉ formatWhole v :=
  fun h => forall_decimalOnto (P := (· ≠ 0x0a)) (by decide) _ _ (by simp) 0x0a h rfl

/-- The walks in the order of the keys. -/
def keyWalks : Walks WholeFloat := ⟨.id, .id, .id⟩

/-- The exported text of calls. -/
def exported (calls : List (MetricCall WholeFloat)) : Bytes :=
  (calls.foldl MetricCall.apply .new).exportText formatWhole keyWalks

end SharkSocket.Infra
