import Scraperack.Counters
import Scraperack.Data
import Scraperack.Thinning

/-! The metric samples of an execution: one before it starts, one at every tick of the sampler that can read the
counters, and one after it has ended. -/

namespace Scraperack

structure VmCounters where
  cpuUsageUsec : Nat
  memoryBytes : Nat
  deriving DecidableEq

/-- What the source computes in floating point, on the bit patterns of single precision. -/
class Percentages where
  /-- `(cpu_usec * 100_000 / (elapsed_usec * cpu_millis)).clamp(0, 100)`. -/
  cpuRatio : Nat → Nat → Nat → BitVec 32
  /-- `(memory_bytes * 100 / limit).clamp(0, 100)`. -/
  memoryRatio : Nat → Nat → BitVec 32
  /-- `f32::max`. -/
  larger : BitVec 32 → BitVec 32 → BitVec 32

section
variable [Percentages]

def cpuPercent (cpuUsec elapsedUsec cpuMillis : Nat) : BitVec 32 :=
  if elapsedUsec = 0 ∨ cpuMillis = 0 then 0
  else Percentages.cpuRatio cpuUsec elapsedUsec cpuMillis

def memoryPercent (memoryBytes memoryMib : Nat) : BitVec 32 :=
  Percentages.memoryRatio memoryBytes (Counters.wrapping (memoryMib + 128) * 1024 * 1024)

def metricPoint (elapsedMs : Nat) (cpu : BitVec 32) (memoryBytes : Nat) (pool : Pool) :
    ExecutionMetricPoint :=
  ⟨elapsedMs, cpu, memoryPercent memoryBytes pool.memoryMib⟩

def pushMetricSample (samples : List ExecutionMetricPoint) (before after : VmCounters)
    (beforeElapsedUs elapsedUs : Nat) (pool : Pool) : List ExecutionMetricPoint :=
  (if 1000 ≤ samples.length then Thinning.stepBy 2 0 samples else samples) ++
    [metricPoint (elapsedUs / 1000)
      (cpuPercent (after.cpuUsageUsec - before.cpuUsageUsec) (elapsedUs - beforeElapsedUs)
        pool.cpuMillis) after.memoryBytes pool]

/-- The sample with which `run_execution` begins. -/
def initialSample (before : VmCounters) (pool : Pool) : ExecutionMetricPoint :=
  metricPoint 0 0 before.memoryBytes pool

/-- The arguments of one call of `push_metric_sample`. -/
structure MetricSample where
  before : VmCounters
  after : VmCounters
  beforeElapsedUs : Nat
  elapsedUs : Nat

def MetricSample.point (sample : MetricSample) (pool : Pool) : ExecutionMetricPoint :=
  metricPoint (sample.elapsedUs / 1000)
    (cpuPercent (sample.after.cpuUsageUsec - sample.before.cpuUsageUsec)
      (sample.elapsedUs - sample.beforeElapsedUs) pool.cpuMillis) sample.after.memoryBytes pool

/-- One call after the other. -/
def pushMetricSamples (samples : List ExecutionMetricPoint) (calls : List MetricSample)
    (pool : Pool) : List ExecutionMetricPoint :=
  calls.foldl (fun samples call =>
    pushMetricSample samples call.before call.after call.beforeElapsedUs call.elapsedUs pool)
    samples

/-- All points of the series, from the first on. -/
def metricSeries (first : ExecutionMetricPoint) (calls : List MetricSample) (pool : Pool) :
    List ExecutionMetricPoint :=
  first :: calls.map (fun call => call.point pool)

theorem pushMetricSamples_kept (first : ExecutionMetricPoint) (calls : List MetricSample)
    (pool : Pool) :
    Thinning.Kept 1000 (metricSeries first calls pool) (pushMetricSamples [first] calls pool) := by
  have kept : Thinning.Kept 1000 (metricSeries first calls pool)
      ((calls.map (fun call => call.point pool)).foldl (Thinning.push 1000 2) [first]) :=
    Thinning.kept_run (by decide) le_rfl first _
  rw [List.foldl_map] at kept
  exact kept

theorem metricSeries_sorted {first : ExecutionMetricPoint} {calls : List MetricSample}
    (begins : first.elapsedMs = 0)
    (sorted : (calls.map MetricSample.elapsedUs).Pairwise (· ≤ ·)) (pool : Pool) :
    (metricSeries first calls pool).Pairwise (fun a b => a.elapsedMs ≤ b.elapsedMs) := by
  refine List.pairwise_cons.mpr ⟨fun point _ => begins ▸ Nat.zero_le _, ?_⟩
  rw [List.pairwise_map] at sorted ⊢
  exact sorted.imp (fun later => Nat.div_le_div_right later)

/-- However many samples follow the initial one: at most 1000 are kept, in the order in which they were pushed; they
start with the initial sample and end with the last one pushed, and their times do not decrease where those
of the calls do not. -/
theorem metric_samples_bounded (before : VmCounters) (calls : List MetricSample) (pool : Pool) :
    let samples := pushMetricSamples [initialSample before pool] calls pool
    let series := metricSeries (initialSample before pool) calls pool
    samples.length ≤ 1000 ∧ samples.Sublist series ∧
      samples.head? = some (initialSample before pool) ∧
      samples.getLast? = series.getLast? ∧
      ((calls.map MetricSample.elapsedUs).Pairwise (· ≤ ·) →
        samples.Pairwise (fun a b => a.elapsedMs ≤ b.elapsedMs)) := by
  obtain ⟨bounded, sublist, head, last⟩ :=
    pushMetricSamples_kept (initialSample before pool) calls pool
  exact ⟨bounded, sublist, head, last, fun sorted =>
    (metricSeries_sorted rfl sorted pool).sublist sublist⟩

/-! The calls that `run_execution` makes. -/

/-- A tick of the sampler, with the counters if they could be read. -/
structure SamplerTick where
  counters : Option VmCounters
  elapsedUs : Nat

/-- The variables that the sampler updates. -/
structure Sampling where
  previous : VmCounters
  previousElapsedUs : Nat
  memoryTotal : Nat
  memoryCount : Nat
  samples : List ExecutionMetricPoint

namespace Sampling

def start (before : VmCounters) (pool : Pool) : Sampling :=
  ⟨before, 0, before.memoryBytes, 1, [initialSample before pool]⟩

def record (pool : Pool) (s : Sampling) (current : VmCounters) (elapsedUs : Nat) : Sampling :=
  { previous := current
    previousElapsedUs := elapsedUs
    memoryTotal := s.memoryTotal + current.memoryBytes
    memoryCount := s.memoryCount + 1
    samples := pushMetricSample s.samples s.previous current s.previousElapsedUs elapsedUs pool }

def tick (pool : Pool) (s : Sampling) (tick : SamplerTick) : Sampling :=
  match tick.counters with
  | none => s
  | some current => s.record pool current tick.elapsedUs

end Sampling

def executionMetrics (before after : VmCounters) (wallTimeUsec memoryTotal memoryCount : Nat)
    (samples : List ExecutionMetricPoint) (pool : Pool) : ExecutionMetrics :=
  { averageCpuPercent := cpuPercent (after.cpuUsageUsec - before.cpuUsageUsec) wallTimeUsec
      pool.cpuMillis
    averageMemoryPercent := memoryPercent (memoryTotal / memoryCount) pool.memoryMib
    peakMemoryPercent := (samples.map ExecutionMetricPoint.memoryPercent).foldl
      Percentages.larger 0
    samples := samples }

/-- What `run_execution` reports where the virtual machine has a control group. -/
def measure (before : VmCounters) (ticks : List SamplerTick) (after : VmCounters)
    (wallTimeUsec : Nat) (pool : Pool) : ExecutionMetrics :=
  let s := (ticks.foldl (Sampling.tick pool) (.start before pool)).record pool after wallTimeUsec
  executionMetrics before after wallTimeUsec s.memoryTotal s.memoryCount s.samples pool

/-- The calls on successful readings of the counters, each after the one before. -/
def Sampling.calls (previous : VmCounters) (previousElapsedUs : Nat) :
    List (VmCounters × Nat) → List MetricSample
  | [] => []
  | (current, elapsedUs) :: rest =>
    ⟨previous, current, previousElapsedUs, elapsedUs⟩ :: calls current elapsedUs rest

def SamplerTick.reading (tick : SamplerTick) : Option (VmCounters × Nat) :=
  tick.counters.map (fun counters => (counters, tick.elapsedUs))

omit [Percentages] in
theorem Sampling.calls_elapsed (previous : VmCounters) (elapsedUs : Nat)
    (readings : List (VmCounters × Nat)) :
    (calls previous elapsedUs readings).map MetricSample.elapsedUs = readings.map Prod.snd := by
  induction readings generalizing previous elapsedUs with
  | nil => rfl
  | cons reading rest ih => rw [calls, List.map_cons, List.map_cons, ih]

theorem Sampling.samples_run (pool : Pool) (s : Sampling) (ticks : List SamplerTick)
    (after : VmCounters) (wallTimeUsec : Nat) :
    ((ticks.foldl (tick pool) s).record pool after wallTimeUsec).samples =
      pushMetricSamples s.samples (calls s.previous s.previousElapsedUs
        (ticks.filterMap SamplerTick.reading ++ [(after, wallTimeUsec)])) pool := by
  induction ticks generalizing s with
  | nil => rfl
  | cons next rest ih =>
    rw [List.foldl_cons, ih]
    obtain ⟨_ | current, elapsedUs⟩ := next <;> rfl

omit [Percentages] in
/-- The times of all readings, the last one included, are among those of the ticks. -/
theorem readings_sublist (ticks : List SamplerTick) (after : VmCounters) (wallTimeUsec : Nat) :
    ((ticks.filterMap SamplerTick.reading ++ [(after, wallTimeUsec)]).map Prod.snd).Sublist
      (ticks.map SamplerTick.elapsedUs ++ [wallTimeUsec]) := by
  induction ticks with
  | nil => exact .refl _
  | cons tick rest ih =>
    obtain ⟨_ | counters, elapsedUs⟩ := tick
    · exact ih.cons elapsedUs
    · exact ih.cons_cons elapsedUs

theorem metricSeries_times (first : ExecutionMetricPoint) (calls : List MetricSample)
    (pool : Pool) :
    (metricSeries first calls pool).map ExecutionMetricPoint.elapsedMs =
      first.elapsedMs :: (calls.map MetricSample.elapsedUs).map (· / 1000) := by
  rw [metricSeries, List.map_cons, List.map_map, List.map_map]
  rfl

/-- The samples of a report, whatever the sampler read and however long the execution took. -/
theorem measure_samples (before : VmCounters) (ticks : List SamplerTick) (after : VmCounters)
    (wallTimeUsec : Nat) (pool : Pool) :
    let samples := (measure before ticks after wallTimeUsec pool).samples
    samples.length ≤ 1000 ∧ samples.head? = some (initialSample before pool) ∧
      samples.getLast?.map ExecutionMetricPoint.elapsedMs = some (wallTimeUsec / 1000) ∧
      ((ticks.map SamplerTick.elapsedUs ++ [wallTimeUsec]).Pairwise (· ≤ ·) →
        samples.Pairwise (fun a b => a.elapsedMs ≤ b.elapsedMs)) := by
  intro samples
  let calls := Sampling.calls before 0
    (ticks.filterMap SamplerTick.reading ++ [(after, wallTimeUsec)])
  have same : samples = pushMetricSamples [initialSample before pool] calls pool :=
    Sampling.samples_run pool (.start before pool) ticks after wallTimeUsec
  have times := Sampling.calls_elapsed before 0
    (ticks.filterMap SamplerTick.reading ++ [(after, wallTimeUsec)])
  obtain ⟨bounded, sublist, head, last⟩ :=
    pushMetricSamples_kept (initialSample before pool) calls pool
  rw [same]
  refine ⟨bounded, head, ?_, fun sorted => ?_⟩
  · rw [last, ← List.getLast?_map, metricSeries_times, times, List.map_append, List.map_append,
      List.getLast?_cons, List.map_singleton, List.map_singleton, List.getLast?_concat]
    rfl
  · refine (metricSeries_sorted rfl ?_ pool).sublist sublist
    rw [times]
    exact sorted.sublist (readings_sublist ticks after wallTimeUsec)

end
end Scraperack
