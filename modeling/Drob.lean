import Drob.Arch.Register
import Drob.Arch.Bitmap
import Drob.Arch.Operand
import Drob.Arch.Opcode
import Drob.Arch.Alu
import Drob.Arch.Kind
import Drob.Library.LittleEndian
import Drob.State.DynamicValue
import Drob.State.Elements
import Drob.State.ProgramState
import Drob.State.WellFormed
import Drob.State.Writes
import Drob.State.Merging
import Drob.State.StackShape
import Drob.State.Accesses
import Drob.State.StackAccesses
import Drob.State.Runs
import Drob.Instruction.Context
import Drob.Instruction.ConstantMemory
import Drob.Instruction.Info
import Drob.Instruction.Dynamic
import Drob.Instruction.Emulator
import Drob.Instruction.Emulate
import Drob.Instruction.AluEmulation
import Drob.Instruction.AluSoundness
import Drob.Instruction.LogicSoundness
import Drob.Instruction.AluTable
import Drob.Library.DepthFirst
import Drob.Library.Result
import Drob.Cfg.Function
import Drob.Cfg.Order
import Drob.CodeGeneration.BinaryPool
import Drob.Decoder.DecodeBlock
import Drob.CodeGeneration.Fallthrough
import Drob.StackAnalysis.Pass
import Drob.State.Bounds
import Drob.State.Rank
import Drob.State.StackVectors
import Drob.State.ReadBack
import Drob.Instruction.Bounds
import Drob.StackAnalysis.Steps
import Drob.StackAnalysis.Termination
import Drob.Api.Config
import Drob.CodeGeneration.PoolMemory
import Drob.CodeGeneration.Allocation
import Drob.Api.Abi
import Drob.Api.Placement
import Drob.Api.Translated
import Drob.Api.EntryState
import Drob.Library.Contraction
import Drob.Passes.BlockLayoutOptimization
import Drob.Passes.LayoutCompletion
import Drob.Passes.DeadCodeRuns
import Drob.Validity.NeverLies
import Drob.Passes.LivenessSolution
import Drob.CodeGeneration.Sizing
import Drob.State.SoundMerge
import Drob.Instruction.Predicates
import Drob.Encoder.Branches
import Drob.Encoder.MemoryOperands
import Drob.Encoder.DirectOperands
import Drob.Passes.MemoryOperandLocation
import Drob.Instruction.AddressWidth
import Drob.Decoder.MemoryOperands
import Drob.Decoder.ConvertLoop
import Drob.Validity.TraversalRuns
import Drob.Reconstruction.Decoding
import Drob.Passes.SpecializationPass
import Drob.Rewriter.Passes
