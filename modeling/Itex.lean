import Itex.AutoMixedPrecision.Frame
import Itex.MemoryOpt.InplaceSafety
import Itex.Remapper.FusedBinaryMeaning
import Itex.Remapper.GradFusionSafety
import Itex.XpuAutoShard.Propagation
import Itex.OneDnnGraph.FusionCycles
import Itex.Devices.Bfc.Backpedal
import Itex.Devices.Bfc.Doubling
import Itex.Devices.Bfc.BestFit
import Itex.Collectives.Delivery
import Itex.Kernels.DeviceRadixResult
import Itex.AutoMixedPrecision.PaintedPaths
import Itex.AutoMixedPrecision.LoopColours
import Itex.GraphUtils.PatternEmbedding
import Itex.XpuAutoShard.AxisOps
import Itex.XpuAutoShard.BatchSplit
import Itex.Utils.Rounding
import Itex.XpuAutoShard.ReshapeShards
import Itex.GraphUtils.UpdatedContent
import Itex.XpuAutoShard.Einsum
import Itex.XpuAutoShard.BiasGrad
import Itex.XpuAutoShard.StridedSlice
import Itex.Remapper.MulWithMaximum
import Itex.Remapper.Dropout
import Itex.Remapper.ReplaceableSum
import Itex.Remapper.StridedSliceGrad
import Itex.XpuAutoShard.StageJoin
import Itex.XpuAutoShard.ControlEdges
import Itex.Remapper.DilatedContraction
import Itex.Kernels.ScanBins
import Itex.Collectives.AllReduceKernel
import Itex.Kernels.FullScan
import Itex.Kernels.FallBackRadixSort
import Itex.Kernels.TreeColReduction
import Itex.Kernels.ReductionHelper
import Itex.GraphUtils.LayoutUtils
import Itex.Kernels.GroupRadixSelect
import Itex.Remapper.BiasSemanticAdd
import Itex.Devices.Bfc.RegionManager
import Itex.AutoMixedPrecision.Traversal
import Itex.Kernels.DynamicPartition
import Itex.Kernels.NonMaxSuppression
