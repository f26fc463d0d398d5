import SharkSocket.Infra.Prometheus
import SharkSocket.Lib.Walk

/-!
# The exposition format

`ExportText` of `internal/infra/observability/prometheus.go` writes the series of each table
as lines of text, sorted by name and labels.  A table is walked in an unspecified order, and
so are series that sort alike; both are one `WalkOrder` here, since the sort keeps the order
of the walk among them.

A label list of even length is names and values by turns; the values of any other list get
positional names.  Names are sanitised and values escaped, so a sample may show other names
than its caller gave.
-/

namespace SharkSocket.Infra

open Std Lib

/-! ### Labels -/

def isNameByte (first : Bool) (b : UInt8) : Bool :=
  (0x61 ≤ b && b ≤ 0x7a) || (0x41 ≤ b && b ≤ 0x5a) || b == 0x5f ||
    (!first && 0x30 ≤ b && b ≤ 0x39)

/-- The loop over the runes of a name, of which `skip` bytes of the present one are still to
pass: a rune that a name may not have becomes one underscore. -/
def sanitizeFrom : Nat → Bool → Bytes → Bytes
  | _, _, [] => []
  | skip + 1, first, _ :: rest => sanitizeFrom skip first rest
  | 0, first, b :: rest =>
    (if isNameByte first b then b else 0x5f) :: sanitizeFrom (runeLen (b :: rest) - 1) false rest

def sanitizeLabelName (name : Bytes) : Bytes :=
  if name = [] then ascii "label" else sanitizeFrom 0 true name

def escapeLabelValue (value : Bytes) : Bytes :=
  let value := replaceByte 0x5c [0x5c, 0x5c] value
  let value := replaceByte 0x0a [0x5c, 0x6e] value
  replaceByte 0x22 [0x5c, 0x22] value

/-- A label as it is rendered. -/
structure Label where
  name : Bytes
  value : Bytes
  deriving DecidableEq, Repr

def Label.text (label : Label) : Bytes :=
  label.name ++ [0x3d, 0x22] ++ label.value ++ [0x22]

def pairsOf : List Bytes → List (Bytes × Bytes)
  | name :: value :: rest => (name, value) :: pairsOf rest
  | _ => []

def positionalName (i : Nat) : Bytes := ascii "label_" ++ decimal i

/-- The pairs that `promLabels` renders. -/
def labelsOf (labels : List Bytes) : List Label :=
  if labels.length % 2 = 0 then
    (pairsOf labels).map fun p => ⟨sanitizeLabelName p.1, escapeLabelValue p.2⟩
  else
    labels.zipIdx.map fun p => ⟨positionalName p.2, escapeLabelValue p.1⟩

def renderLabels (labels : List Label) : Bytes :=
  if labels = [] then [] else [0x7b] ++ List.intercalate [0x2c] (labels.map Label.text) ++ [0x7d]

def promLabels (labels : List Bytes) : Bytes := renderLabels (labelsOf labels)

/-! ### Lines -/

inductive Line
  | type (name typ : Bytes)
  | sample (name : Bytes) (labels : List Label) (value : Bytes)
  deriving DecidableEq, Repr

namespace Line

def text : Line → Bytes
  | type name typ => ascii "# TYPE " ++ name ++ [0x20] ++ typ ++ [0x0a]
  | sample name labels value => name ++ renderLabels labels ++ [0x20] ++ value ++ [0x0a]

end Line

variable {V : Type}

/-- The order of `sortedMetrics` and `sortedHistograms`. -/
def seriesLess (name name' : Bytes) (labels labels' : List Bytes) : Bool :=
  if name ≠ name' then name < name' else promLabels labels < promLabels labels'

def sortedMetrics (walk : WalkOrder (SeriesKey × PromMetric V))
    (metrics : ExtTreeMap SeriesKey (PromMetric V)) : List (PromMetric V) :=
  (walk.values metrics).insertionSort fun a b => seriesLess b.name a.name b.labels a.labels = false

def sortedHistograms (walk : WalkOrder (SeriesKey × PromHistogram V))
    (histograms : ExtTreeMap SeriesKey (PromHistogram V)) : List (PromHistogram V) :=
  (walk.values histograms).insertionSort fun a b =>
    seriesLess b.name a.name b.labels a.labels = false

section Export

variable (formatFloat : V → Bytes)

/-- The samples of each series, with one `TYPE` line in front of the first of a name that is
not yet declared. -/
def declaring {S : Type} (name : S → Bytes) (typ : Bytes) (samples : S → List Line) :
    List Bytes → List S → List Line
  | _, [] => []
  | declared, series :: rest =>
    if name series ∈ declared then samples series ++ declaring name typ samples declared rest
    else .type (name series) typ :: samples series ++
      declaring name typ samples (name series :: declared) rest

theorem declaring_cons {S : Type} (name : S → Bytes) (typ : Bytes) (samples : S → List Line)
    (declared : List Bytes) (series : S) (rest : List S) :
    declaring name typ samples declared (series :: rest) =
      if name series ∈ declared then samples series ++ declaring name typ samples declared rest
      else .type (name series) typ :: samples series ++
        declaring name typ samples (name series :: declared) rest := rfl

def PromMetric.line (metric : PromMetric V) : Line :=
  .sample metric.name (labelsOf metric.labels) (formatFloat metric.value)

def writePromMetrics (walk : WalkOrder (SeriesKey × PromMetric V)) (typ : Bytes)
    (metrics : ExtTreeMap SeriesKey (PromMetric V)) : List Line :=
  declaring PromMetric.name typ (fun metric => [metric.line formatFloat]) []
    (sortedMetrics walk metrics)

def promLabelsWithBucket (labels : List Bytes) (le : Bytes) : List Label :=
  labelsOf (labels ++ [ascii "le", le])

namespace PromHistogram

variable (hist : PromHistogram V)

def bucketLine (le : Bytes) (count : UInt64) : Line :=
  .sample (hist.name ++ ascii "_bucket") (promLabelsWithBucket hist.labels le) (decimal count.toNat)

/-- The loop over the buckets; `cumulative` is what the earlier ones hold. -/
def bucketLines : UInt64 → List (V × UInt64) → List Line
  | _, [] => []
  | cumulative, (bound, n) :: rest =>
    hist.bucketLine (formatFloat bound) (cumulative + n) :: bucketLines (cumulative + n) rest

def lines : List Line :=
  bucketLines formatFloat hist 0 (hist.buckets.zip hist.counts) ++
    [hist.bucketLine (ascii "+Inf") hist.count,
      .sample (hist.name ++ ascii "_count") (labelsOf hist.labels) (decimal hist.count.toNat),
      .sample (hist.name ++ ascii "_sum") (labelsOf hist.labels) (formatFloat hist.sum)]

end PromHistogram

def writePromHistograms (walk : WalkOrder (SeriesKey × PromHistogram V))
    (histograms : ExtTreeMap SeriesKey (PromHistogram V)) : List Line :=
  declaring PromHistogram.name (ascii "histogram") (PromHistogram.lines formatFloat) []
    (sortedHistograms walk histograms)

/-- The orders of the three walks of one export. -/
structure Walks (V : Type) where
  counters : WalkOrder (SeriesKey × PromMetric V)
  gauges : WalkOrder (SeriesKey × PromMetric V)
  histograms : WalkOrder (SeriesKey × PromHistogram V)

namespace PrometheusMetrics

variable (m : PrometheusMetrics V) (walks : Walks V)

def counterLines : List Line :=
  writePromMetrics formatFloat walks.counters (ascii "counter") m.counters

def gaugeLines : List Line :=
  writePromMetrics formatFloat walks.gauges (ascii "gauge") m.gauges

def histogramLines : List Line := writePromHistograms formatFloat walks.histograms m.histograms

def exportText : Bytes :=
  (counterLines formatFloat m walks ++ gaugeLines formatFloat m walks ++
    histogramLines formatFloat m walks).flatMap Line.text

end PrometheusMetrics

end Export

end SharkSocket.Infra
