import DotMatrix.Instruction.Encode
import DotMatrix.Instruction.Outline
import DotMatrix.Main
import DotMatrix.Proofs.CheckedMachine
import DotMatrix.Proofs.DisplayRequests
import DotMatrix.Proofs.Frames
import DotMatrix.Proofs.DisplaySplit
import DotMatrix.Proofs.TimerCounts
import DotMatrix.Proofs.CoreWork
import DotMatrix.Proofs.InterruptEnable
import DotMatrix.Proofs.CoreStores
import DotMatrix.Proofs.Requests
import DotMatrix.Proofs.Failures
import DotMatrix.Proofs.InterruptService
import DotMatrix.Proofs.LowPower
import DotMatrix.Proofs.InstructionTrace
import DotMatrix.Proofs.WrittenAddresses
import DotMatrix.Proofs.FlatMemory
import DotMatrix.Proofs.DividerClock
import DotMatrix.Proofs.DisplayMirror
import DotMatrix.Proofs.Dependence
import DotMatrix.Proofs.Encodings
import DotMatrix.Proofs.InstructionEffects
import DotMatrix.Proofs.ProtectedBytes
import DotMatrix.Proofs.Dispatch
import DotMatrix.Proofs.CartridgeChecks
import DotMatrix.Proofs.MultiByte
import DotMatrix.Proofs.FrameRuns
import DotMatrix.Proofs.CommandOutcome
import DotMatrix.Proofs.StackDiscipline
import DotMatrix.Proofs.Branches
import DotMatrix.Proofs.OamCopy
import DotMatrix.Proofs.DeviceOrder
import DotMatrix.Proofs.WideAdditions
import DotMatrix.Proofs.TitleField
import DotMatrix.Proofs.MultiByteShifts
import DotMatrix.Proofs.Disassembly
