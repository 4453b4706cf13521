import ThreeLaSim.Core.TokenNet
import ThreeLaSim.Core.BitFields
import ThreeLaSim.Core.FieldLayout
import ThreeLaSim.Core.BlockTranspose
import ThreeLaSim.Core.LoopNest
import ThreeLaSim.Core.FixedWidth
import ThreeLaSim.Core.Numerals
import ThreeLaSim.Core.Text
import ThreeLaSim.Core.HexWord
import ThreeLaSim.Core.BlockStore
import ThreeLaSim.Core.History
import ThreeLaSim.Core.Footprint
import ThreeLaSim.Core.LockStep
import ThreeLaSim.Core.IntExpr
import ThreeLaSim.Vta.Insn
import ThreeLaSim.Vta.Streams
import ThreeLaSim.Vta.TileSchedule
import ThreeLaSim.Vta.TokenProtocol
import ThreeLaSim.Vta.Hazards
import ThreeLaSim.Vta.UninterpretedFunc
import ThreeLaSim.Vta.PackBuffer
import ThreeLaSim.Vta.UnpackBuffer
import ThreeLaSim.Vta.Uops
import ThreeLaSim.Vta.Tiling
import ThreeLaSim.Vta.BufferBounds
import ThreeLaSim.Vta.OutputDump
import ThreeLaSim.Vta.Machine
import ThreeLaSim.Vta.Serializable
import ThreeLaSim.Vta.TileProduct
import ThreeLaSim.Vta.BlockedRun
import ThreeLaSim.Vta.TestResult
import ThreeLaSim.Vta.AluRun
import ThreeLaSim.Vta.IlaLog
import ThreeLaSim.Vta.ExtractSimLog
import ThreeLaSim.Vta.InputGen
import ThreeLaSim.Vta.CoSim
import ThreeLaSim.Vta.SimCheck
import ThreeLaSim.Vta.InsnWord
import ThreeLaSim.Vta.SimModel
import ThreeLaSim.Flexnlp.AddrMap
import ThreeLaSim.Flexnlp.MaxpTestGen
import ThreeLaSim.Flexnlp.ProgFragGen
import ThreeLaSim.Flexnlp.SourceInput
import ThreeLaSim.Flexnlp.MaxpoolSim
import ThreeLaSim.Flexnlp.ProgFragFlex
import ThreeLaSim.Flexnlp.FlexnlpResult
import ThreeLaSim.Flexnlp.AttentionResult
import ThreeLaSim.Flexnlp.FloatData
import ThreeLaSim.Hlscnn.SimResult
import ThreeLaSim.Hlscnn.InputSeq
