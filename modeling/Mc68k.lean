import Mc68k.BusTrace
import Mc68k.Emulator
import Mc68k.Host.Directory
import Mc68k.Host.Table
import Mc68k.Proofs.Exception.Unwind
import Mc68k.Proofs.Memory.CallbackRegion
import Mc68k.Proofs.Privilege.Isolation
import Mc68k.Proofs.Memory.Translate
import Mc68k.Proofs.Host.NewPtr
import Mc68k.Proofs.Exception.Layout
import Mc68k.Proofs.Memory.Bytes
import Mc68k.Proofs.Privilege.Noninterference
import Mc68k.Proofs.Arithmetic.Binary
import Mc68k.Proofs.Arithmetic.Packed
import Mc68k.Proofs.Compatibility.Step
import Mc68k.Proofs.Execution.Control
import Mc68k.Proofs.Execution.Alignment
import Mc68k.Proofs.Exception.Trace
import Mc68k.Proofs.Memory.Agreement
import Mc68k.Proofs.Execution.Composition
import Mc68k.Proofs.Host.Uncaught
import Mc68k.Proofs.Host.Return
import Mc68k.Proofs.Movem.SaveRestore
import Mc68k.Proofs.Movem.Place
import Mc68k.Proofs.Execution.AllOrNothing
import Mc68k.Proofs.Execution.FaultRecord
import Mc68k.Proofs.Arithmetic.Division
import Mc68k.Proofs.Arithmetic.Comparison
import Mc68k.Proofs.Shift.Scaling
import Mc68k.Proofs.Shift.Rotation
import Mc68k.Proofs.Host.BlockMove
import Mc68k.Proofs.Host.Load
import Mc68k.Proofs.Execution.StoreLoad
import Mc68k.Proofs.Execution.Refusal
import Mc68k.Proofs.Memory.Mapping
import Mc68k.Proofs.Execution.IndexWord
import Mc68k.Proofs.OpcodeMap
import Mc68k.Proofs.Execution.Subroutine
import Mc68k.Proofs.Arithmetic.Addition
import Mc68k.Proofs.Arithmetic.Multiplication
import Mc68k.Proofs.Execution.SingleBit
import Mc68k.Proofs.Execution.CountedLoop
import Mc68k.Proofs.Execution.OperandFit
import Mc68k.Proofs.Execution.WordCount
