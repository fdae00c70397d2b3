import KDebugger.ElfLookup
import KDebugger.Dwarf.CompileUnits
import KDebugger.Dwarf.Indexing
import KDebugger.Dwarf.DieBounds
import KDebugger.Dwarf.InlineStack
import KDebugger.Dwarf.LineLooks
import KDebugger.Dwarf.CallFrameRow
import KDebugger.Dwarf.CallFrameNesting
import KDebugger.Dwarf.AbbrevTable
import KDebugger.Dwarf.LineUses
import KDebugger.Dwarf.EhLookup
import KDebugger.Dwarf.EhCache
import KDebugger.SymbolMap
import KDebugger.TypedIntegers
import KDebugger.TypedVectors
import KDebugger.SymbolVector
import KDebugger.AddressTranslation
import KDebugger.Dwarf.NameChains
import KDebugger.Dwarf.PartialIndex
import KDebugger.Process.RegisterText
import KDebugger.Process.RegisterRoundTrips
import KDebugger.Process.RegisterReads
import KDebugger.Process.WholeWords
import KDebugger.Process.HardwareRuns
import KDebugger.Process.DebugRuns
import KDebugger.Process.TriggeredSlots
import KDebugger.Process.StepEnds
import KDebugger.Process.LaunchRuns
import KDebugger.Process.StackRuns
import KDebugger.Process.InlineHeight
import KDebugger.Process.WatchpointSizes
import KDebugger.Process.UnwindEnds
import KDebugger.Process.UnwindOrder
import KDebugger.Process.ExpressionStack
import KDebugger.Target.LinkedRuns
import KDebugger.Target.SiteIdRuns
import KDebugger.Target.Reloads
import KDebugger.Target.PrologueSkips
import KDebugger.Target.Threads
import KDebugger.Target.SwitchedBreakpoints
import KDebugger.Target.MemberRemovals
import KDebugger.Target.FunctionNames
import KDebugger.Process.RemoteChunks
import KDebugger.Process.ControlBits
import KDebugger.Process.AuxiliaryVector
import KDebugger.Process.InlineFrames
import KDebugger.Target.Regions
import KDebugger.Target.StepOut
import KDebugger.Target.AddedSites
import KDebugger.Target.TemporarySites
import KDebugger.Tool.Requests
import KDebugger.Tool.Overruns
