import FdpRocks.Library.Loop
import FdpRocks.Library.Words
import FdpRocks.Library.Numerals
import FdpRocks.Library.Pattern
import FdpRocks.Library.PythonText
import FdpRocks.Library.Transition
import FdpRocks.Benchmark.KeyOrder
import FdpRocks.Benchmark.KeyGeneration
import FdpRocks.Benchmark.KeyGenerationSoundness
import FdpRocks.Benchmark.PrepareKeys
import FdpRocks.Benchmark.PrepareKeysSoundness
import FdpRocks.Benchmark.UniformPartition
import FdpRocks.Benchmark.KeyOrderCache
import FdpRocks.Benchmark.UserKeyFile
import FdpRocks.Benchmark.Stats
import FdpRocks.Scripts.Throughput
import FdpRocks.Benchmark.Barrier
import FdpRocks.Benchmark.BarrierSoundness
import FdpRocks.Benchmark.WriteAmplification
import FdpRocks.Scripts.WaBlocks
import FdpRocks.Scripts.WaBlocksRoundTrip
import FdpRocks.Scripts.SegmentedRuns
import FdpRocks.Scripts.SegmentedRunsSoundness
import FdpRocks.Benchmark.Progress
import FdpRocks.Benchmark.WriteLoop
import FdpRocks.Benchmark.WriteLoopSoundness
import FdpRocks.Benchmark.WriteRun
import FdpRocks.Prefill.ParseSize
import FdpRocks.Library.Double
import FdpRocks.Scripts.CompareCsv
import FdpRocks.Library.Rounds
import FdpRocks.Scripts.ExampleWorkloads
import FdpRocks.Benchmark.IndexKey
import FdpRocks.Benchmark.IndexKeySoundness
import FdpRocks.Benchmark.HotspotSchedule
import FdpRocks.Scripts.Lifetimes
import FdpRocks.Scripts.LifetimesSoundness
import FdpRocks.Experiment.Preflight
import FdpRocks.Experiment.PreflightSoundness
import FdpRocks.Library.Interpolation
import FdpRocks.Scripts.Curves
import FdpRocks.Scripts.CurvesSoundness
import FdpRocks.Experiment.RunPhase
import FdpRocks.Experiment.RunPhaseSoundness
import FdpRocks.Benchmark.ShuffleSeeds
import FdpRocks.Benchmark.KeyOrderNames
import FdpRocks.Benchmark.KeyPreparation
import FdpRocks.Benchmark.WriteLoopTermination
import FdpRocks.Benchmark.KeyEncoding
import FdpRocks.Scripts.WaSeries
import FdpRocks.Prefill.Fill
import FdpRocks.Library.Vectors
import FdpRocks.Benchmark.RandomKeyTrace
import FdpRocks.Benchmark.RandomKeyTraceSoundness
import FdpRocks.Benchmark.WorkloadShifting
import FdpRocks.Benchmark.StridedWorkload
import FdpRocks.Benchmark.RecordLayout
import FdpRocks.Benchmark.TraceIterators
import FdpRocks.Library.Sampling
import FdpRocks.Benchmark.TraceGenerators
import FdpRocks.Benchmark.TraceGeneratorsSoundness
import FdpRocks.Experiment.SweepSoundness
import FdpRocks.Experiment.Measurement
import FdpRocks.Benchmark.ZipfianInt
import FdpRocks.Benchmark.TraceRandom
import FdpRocks.Scripts.Thresholds
import FdpRocks.Experiment.Reproduction
import FdpRocks.Prefill.Guard
