import SnesRecomp.Runtime.CpuState
import SnesRecomp.Runtime.Bus
import SnesRecomp.Runtime.WordAccess
import SnesRecomp.Interp.State
import SnesRecomp.Interp.Addressing
import SnesRecomp.Interp.Alu
import SnesRecomp.Interp.Opcodes
import SnesRecomp.Recompiler.Insn
import SnesRecomp.Recompiler.IR
import SnesRecomp.Recompiler.Emit
import SnesRecomp.Recompiler.Calls
import SnesRecomp.Recompiler.CallBalance
import SnesRecomp.Lib.Runs
import SnesRecomp.Recompiler.IndexHigh
import SnesRecomp.Runtime.HostStack
import SnesRecomp.Recompiler.Unwind
import SnesRecomp.Runtime.Dispatch
import SnesRecomp.Tiers.Bridge
import SnesRecomp.Interp.Sync
import SnesRecomp.Tiers.EffectiveAddress
import SnesRecomp.Tiers.AluValues
import SnesRecomp.Tiers.AluSteps
import SnesRecomp.Tiers.AluAgreement
import SnesRecomp.Tiers.TierReturn
import SnesRecomp.Tiers.BridgeExit
import SnesRecomp.Runtime.HostFrames
import SnesRecomp.Recompiler.TailContext
import SnesRecomp.Recompiler.Decode
import SnesRecomp.Lib.Visit
import SnesRecomp.Lib.Text
import SnesRecomp.Recompiler.Graph
import SnesRecomp.Recompiler.Cfg
import SnesRecomp.Recompiler.EmitFunction
import SnesRecomp.Recompiler.Edges
import SnesRecomp.Recompiler.PopPairing
import SnesRecomp.Tiers.ReturnFrames
import SnesRecomp.Tiers.ProgramBank
import SnesRecomp.Recompiler.Successors
import SnesRecomp.Recompiler.ModeFlow
import SnesRecomp.Tiers.NormalExit
import SnesRecomp.Recompiler.References
import SnesRecomp.Lib.Saturate
import SnesRecomp.Regen.Passes
import SnesRecomp.Regen.Invariant
import SnesRecomp.Regen.Promotion
import SnesRecomp.Regen.StaysPruned
import SnesRecomp.Regen.Names
import SnesRecomp.Regen.Links
import SnesRecomp.Regen.Survivors
import SnesRecomp.Regen.Taint
import SnesRecomp.Lib.Files
import SnesRecomp.Runtime.Sram
import SnesRecomp.Lib.Regions
import SnesRecomp.Runtime.Snapshot
import SnesRecomp.Runtime.DmaBus
import SnesRecomp.Runtime.RegisterWords
import SnesRecomp.Recompiler.StatusByte
import SnesRecomp.Recompiler.InterruptFrame
import SnesRecomp.Tiers.MoveSteps
import SnesRecomp.Tiers.InstructionFetch
import SnesRecomp.Tiers.OperandAccess
import SnesRecomp.Tiers.DataMovement
import SnesRecomp.Tiers.StraightLine
import SnesRecomp.Lib.Sweeps
import SnesRecomp.Recompiler.ExitModes
import SnesRecomp.Recompiler.ExitFixpoint
import SnesRecomp.Recompiler.TableBase
import SnesRecomp.Recompiler.RtsTables
import SnesRecomp.Recompiler.JumpTables
import SnesRecomp.Regen.CfgLoader
import SnesRecomp.Regen.CfgOverrides
import SnesRecomp.Regen.TailCallAutoroute
import SnesRecomp.Recompiler.Cycles
import SnesRecomp.Recompiler.CycleText
import SnesRecomp.Recompiler.InlineArgs
import SnesRecomp.Tiers.InlineReturn
import SnesRecomp.Interp.Registers
import SnesRecomp.Tiers.ScannedCode
import SnesRecomp.Recompiler.PointerTables
import SnesRecomp.Recompiler.MergedReach
import SnesRecomp.Tiers.PointerDispatch
import SnesRecomp.Tiers.HandlerContext
import SnesRecomp.Tiers.BlockMove
import SnesRecomp.Tiers.DispatchBalance
import SnesRecomp.Tiers.RuntimeCalls
import SnesRecomp.Lib.Spans
import SnesRecomp.Lib.Columns
import SnesRecomp.Devices.PpuWindows
import SnesRecomp.Devices.PpuTiles
import SnesRecomp.Devices.PpuBackground
import SnesRecomp.Devices.PpuMosaic
import SnesRecomp.Devices.PpuSprites
import SnesRecomp.Lib.Ring
import SnesRecomp.Devices.DspRing
import SnesRecomp.Devices.Msu1
import SnesRecomp.Devices.ApuPorts
import SnesRecomp.Runtime.SnapshotErrors
import SnesRecomp.Tiers.CapBail
import SnesRecomp.Regen.WrapperAutoroute
import SnesRecomp.Lib.Search
import SnesRecomp.Regen.DispatchTable
import SnesRecomp.Tiers.StackOps
import SnesRecomp.Tiers.StackRuns
import SnesRecomp.Lib.Dominators
import SnesRecomp.Lib.Postorder
import SnesRecomp.Recompiler.Dominators
import SnesRecomp.Recompiler.Values
import SnesRecomp.Interp.Modes
import SnesRecomp.Recompiler.Closure
import SnesRecomp.Tiers.IntraSteps
import SnesRecomp.Tiers.ModeTracking
import SnesRecomp.Tiers.CallTracking
import SnesRecomp.Lib.Loops
import SnesRecomp.Devices.Dma
import SnesRecomp.Devices.Hdma
import SnesRecomp.Devices.SnesRegisters
import SnesRecomp.Devices.Dsp
import SnesRecomp.Devices.DspRuns
import SnesRecomp.Devices.Apu
import SnesRecomp.Devices.BootRom
import SnesRecomp.Devices.BootRuns
import SnesRecomp.Devices.SpcUpload
import SnesRecomp.Devices.ApuAccesses
import SnesRecomp.Devices.Timers
