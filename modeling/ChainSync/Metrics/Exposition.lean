import ChainSync.Metrics
set_option autoImplicit false

namespace ChainSync.Exposition

inductive Sample where
  | counter (value : UInt64)
  | histogram (value : Histogram)

/-- A named measurement with a sentence about it. -/
structure Series where
  name : String
  help : String
  sample : Sample

/-- Counters pass through a double. -/
def counterText (n : UInt64) : String := Decimal.text n.toFloat

/-- Counts up to each bound, the last one for all observations. -/
def cumulative (h : Histogram) : List (String × Nat) :=
  let bounds := Histogram.bounds.map Decimal.text ++ ["+Inf"]
  bounds.zipIdx.map fun (bound, i) => (bound, (h.counts.take (i + 1)).foldl (· + ·) 0)

def Series.kind (s : Series) : String :=
  match s.sample with
  | .counter _ => "counter"
  | .histogram _ => "histogram"

def Series.values (s : Series) : List String :=
  match s.sample with
  | .counter n => [s.name ++ " " ++ counterText n]
  | .histogram h =>
    (cumulative h).map (fun (bound, n) =>
      s.name ++ "_bucket\x7ble=\"" ++ bound ++ "\"\x7d " ++ toString n)
      ++ [s.name ++ "_sum " ++ Decimal.text h.sum, s.name ++ "_count " ++ toString h.count]

def Series.lines (s : Series) : List String :=
  ["# HELP " ++ s.name ++ " " ++ s.help, "# TYPE " ++ s.name ++ " " ++ s.kind] ++ s.values

def ofCategory (c : Category) (m : CategoryMetrics) : List Series :=
  let name := c.shortName
  let series (suffix help : String) (sample : Sample) : Series :=
    ⟨"downloader_" ++ name ++ suffix, help, sample⟩
  [series "_in" ("Number of " ++ name ++ " items accepted from peers") (.counter m.inbound),
   series "_drop" ("Number of " ++ name ++ " items dropped") (.counter m.dropped),
   series "_timeout" ("Number of " ++ name ++ " requests that timed out")
     (.counter (UInt64.ofNat m.timeouts)),
   series "_req" ("Round trip of " ++ name ++ " requests in seconds") (.histogram m.latency)]

def all (m : Metrics) : List Series :=
  Category.all.flatMap (fun c => ofCategory c (m.categories.get c))
    ++ [⟨"downloader_throttle", "Number of times a fetch waited for an idle peer",
          .counter (UInt64.ofNat m.throttle)⟩,
        ⟨"downloader_state_fetch_fallbacks", "Number of snap syncs that fell back to full import",
          .counter (UInt64.ofNat m.stateFetchFallbacks)⟩]

/-- Every series in the order of their names. -/
def lines (m : Metrics) : List String :=
  ((all m).mergeSort fun a b => decide (a.name ≤ b.name)).flatMap Series.lines

end ChainSync.Exposition
