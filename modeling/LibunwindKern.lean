import LibunwindKern.Lib.Res
import LibunwindKern.Lib.Commands
import LibunwindKern.Lib.ByteMem
import LibunwindKern.Lib.FreeList
import LibunwindKern.Lib.Leb128
import LibunwindKern.Lib.DoublyLinked
import LibunwindKern.Lib.LinkedChain
import LibunwindKern.Lib.BinarySearch
import LibunwindKern.Lib.Probing
import LibunwindKern.Lib.StraightLine
import LibunwindKern.Mempool.Mempool
import LibunwindKern.Mempool.Invariant
import LibunwindKern.Dwarf.Types
import LibunwindKern.Dwarf.Reader
import LibunwindKern.Dwarf.ReadProgress
import LibunwindKern.Dwarf.ReadLeb
import LibunwindKern.Dwarf.Encoding
import LibunwindKern.Dwarf.PointerDecode
import LibunwindKern.Dwarf.Fde
import LibunwindKern.Dwarf.FdeSpec
import LibunwindKern.Dwarf.FdeRoundTrip
import LibunwindKern.Dwarf.FindProcInfo
import LibunwindKern.Dwarf.TableLookup
import LibunwindKern.Dyn.InfoList
import LibunwindKern.Dwarf.LinearSearch
import LibunwindKern.Dwarf.Lookup
import LibunwindKern.X86.Regs
import LibunwindKern.X86.Resume
import LibunwindKern.X86.GoodAddr
import LibunwindKern.Dwarf.Expr
import LibunwindKern.Dwarf.ExprStack
import LibunwindKern.Dwarf.ExprCommands
import LibunwindKern.Dwarf.ExprFraming
import LibunwindKern.Dwarf.ExprDeref
import LibunwindKern.Dwarf.ExprSafety
import LibunwindKern.Dwarf.ExprProgress
import LibunwindKern.Dwarf.ExprTree
import LibunwindKern.Dwarf.Cfi
import LibunwindKern.Dwarf.CfiCommands
import LibunwindKern.Dwarf.CfiTable
import LibunwindKern.Dwarf.CfiProgress
import LibunwindKern.Dwarf.CfiRow
import LibunwindKern.Dwarf.Parser
import LibunwindKern.Dwarf.StepOutcome
import LibunwindKern.Dwarf.Untouched
import LibunwindKern.Dwarf.CallSite
import LibunwindKern.Dwarf.CfiTrace
import LibunwindKern.Dwarf.RowStack
import LibunwindKern.Dwarf.RegRules
import LibunwindKern.Dwarf.RegLoc
import LibunwindKern.Dwarf.RegMap
import LibunwindKern.Dwarf.RegReads
import LibunwindKern.Dwarf.RsCache
import LibunwindKern.Dwarf.RsCacheInvariant
import LibunwindKern.Dwarf.Fetch
import LibunwindKern.Dwarf.FrameBlind
import LibunwindKern.Dwarf.RowLookup
import LibunwindKern.Dwarf.CachedSaveLocs
import LibunwindKern.Dwarf.CachedAgreement
import LibunwindKern.Dwarf.Ownership
import LibunwindKern.Dwarf.RetAddrColumn
import LibunwindKern.Dwarf.StaleRange
import LibunwindKern.Dwarf.SizedAugmentation
import LibunwindKern.Dwarf.TableSearch
import LibunwindKern.Dwarf.EncodedRow
import LibunwindKern.X86.Step
import LibunwindKern.X86.StepResult
import LibunwindKern.X86.FallbackFrame
import LibunwindKern.X86.FallbackProgram
import LibunwindKern.X86.FallbackReads
import LibunwindKern.X86.StepRun
import LibunwindKern.X86.Cursor
import LibunwindKern.X86.RegWrite
import LibunwindKern.X86.LocalResume
import LibunwindKern.X86.UnsetFields
import LibunwindKern.X86.InitCursor
import LibunwindKern.X86.UsePrevInstr
import LibunwindKern.X86.ProcInfoCache
import LibunwindKern.X86.Context
import LibunwindKern.X86.Landing
import LibunwindKern.X86.CallFrame
import LibunwindKern.X86.BareFrame
import LibunwindKern.X86.Callers
import LibunwindKern.X86.TableFrames
import LibunwindKern.X86.Longjmp
import LibunwindKern.Unwind.Phases
import LibunwindKern.Unwind.TwoPhase
import LibunwindKern.Unwind.CleanupChain
import LibunwindKern.Unwind.ForcedUnwind
import LibunwindKern.Unwind.IpInfo
import LibunwindKern.Trace.Cache
import LibunwindKern.Trace.Backtrace
import LibunwindKern.Trace.Callers
import LibunwindKern.Trace.Entries
import LibunwindKern.Trace.Table
import LibunwindKern.Trace.Agreement
import LibunwindKern.Trace.Replay
import LibunwindKern.Trace.StandardFrame
import LibunwindKern.Lib.Lockstep
import LibunwindKern.Unwind.Refinement
import LibunwindKern.Unwind.MachineStack
import LibunwindKern.Unwind.FrameView
import LibunwindKern.Unwind.LandingPad
import LibunwindKern.Unwind.Backtrace
