import TwoIne.DosCalls.Tls
import TwoIne.Lib.ModRm
import TwoIne.LxLoader.TlsFaults
import TwoIne.Proofs.LxLoader.TlsFaults
import TwoIne.Proofs.DosCalls.Tls
import TwoIne.Lib.Cells
import TwoIne.Lib.Chains
import TwoIne.PmWin.MessageQueue
import TwoIne.Proofs.PmWin.MessageQueue
import TwoIne.LxLoader.Ldt
import TwoIne.Proofs.LxLoader.Ldt
import TwoIne.Proofs.LxLoader.Conversion
import TwoIne.DosCalls.Handles
import TwoIne.Proofs.DosCalls.Handles
import TwoIne.DosCalls.Threads
import TwoIne.Proofs.DosCalls.Threads
import TwoIne.DosCalls.ExitList
import TwoIne.Proofs.DosCalls.ExitItems
import TwoIne.Proofs.DosCalls.ExitList
import TwoIne.Proofs.DosCalls.ExitReentry
import TwoIne.DosCalls.Open
import TwoIne.Proofs.DosCalls.Open
import TwoIne.Lib.Dependencies
import TwoIne.LxLoader.Modules
import TwoIne.Lib.Outcomes
import TwoIne.Proofs.LxLoader.Registry
import TwoIne.Proofs.LxLoader.Release
import TwoIne.Proofs.LxLoader.Loading
import TwoIne.Proofs.LxLoader.LoadModule
import TwoIne.Proofs.LxLoader.Shutdown
import TwoIne.Proofs.LxLoader.ModuleRuns
import TwoIne.Lib.CStrings
import TwoIne.Lib2ine.Pib
import TwoIne.DosCalls.ExecPgm
import TwoIne.Proofs.DosCalls.ExecPgm
import TwoIne.Lib.Regions
import TwoIne.Lib.Leb128
import TwoIne.Lib.DwarfLines
import TwoIne.Debugger.LineTable
import TwoIne.Debugger.DebugLine
import TwoIne.Proofs.Debugger.LineReaders
import TwoIne.Proofs.Debugger.LineHeaders
import TwoIne.Proofs.Debugger.LinePrograms
import TwoIne.Proofs.Debugger.LineSections
import TwoIne.Proofs.Debugger.LineRows
import TwoIne.Proofs.Debugger.LineCounts
import TwoIne.Proofs.Debugger.FileNumbers
import TwoIne.Proofs.Debugger.LineRoundTrip
import TwoIne.Debugger.LinearLookup
import TwoIne.Proofs.Debugger.LinearLookup
import TwoIne.Debugger.DebugInfo
import TwoIne.Lib.TextLines
import TwoIne.Debugger.SourceFile
import TwoIne.Proofs.Debugger.SourceFile
import TwoIne.Debugger.SourceCache
import TwoIne.Proofs.Debugger.SourceCache
import TwoIne.LxLoader.LxHeader
import TwoIne.Proofs.Debugger.FileReaders
import TwoIne.Proofs.Debugger.DebugInfo
import TwoIne.DosCalls.Segments
import TwoIne.Proofs.DosCalls.Segments
import TwoIne.Proofs.DosCalls.SegmentRuns
import TwoIne.DosCalls.RamSem
import TwoIne.DosCalls.EventSem
import TwoIne.Proofs.DosCalls.RamSem
import TwoIne.LxLoader.Exports
import TwoIne.Proofs.DosCalls.EventSem
import TwoIne.Proofs.LxLoader.Exports
import TwoIne.Lib.Buffers
import TwoIne.LxLoader.ExePack
import TwoIne.Proofs.LxLoader.ExePack
import TwoIne.DosCalls.CurrentDir
import TwoIne.Proofs.DosCalls.CurrentDir
import TwoIne.Lib2ine.MountPoints
import TwoIne.Proofs.Lib2ine.MountPoints
import TwoIne.DosCalls.FullNames
import TwoIne.Proofs.DosCalls.FullNames
import TwoIne.LxDump.Tables
import TwoIne.Proofs.LxDump.EntryTables
import TwoIne.Proofs.LxDump.Agreement
import TwoIne.Debugger.Breakpoints
import TwoIne.Proofs.Debugger.Breakpoints
import TwoIne.Lib.Forests
import TwoIne.PmWin.Windows
import TwoIne.Proofs.PmWin.WindowCells
import TwoIne.Proofs.PmWin.WindowTree
import TwoIne.Proofs.PmWin.WindowCreation
import TwoIne.Proofs.PmWin.WindowRuns
import TwoIne.Lib.Lz
import TwoIne.LxLoader.PackTokens
import TwoIne.Proofs.LxLoader.PackTokens
import TwoIne.LxLoader.Iterated
import TwoIne.Proofs.LxLoader.Iterated
import TwoIne.Lib.Memories
import TwoIne.LxLoader.Objects
import TwoIne.Proofs.LxLoader.Objects
import TwoIne.LxLoader.Fixups
import TwoIne.Proofs.LxLoader.Fixups
import TwoIne.DosCalls.Wildcards
import TwoIne.Lib.Globs
import TwoIne.Proofs.DosCalls.Wildcards
import TwoIne.DosCalls.FindFiles
import TwoIne.Proofs.LxLoader.Selectors
import TwoIne.Proofs.DosCalls.FindBuffers
import TwoIne.Proofs.DosCalls.FindAccounts
import TwoIne.Proofs.DosCalls.FindRuns
import TwoIne.DosCalls.FindFiles16
import TwoIne.Proofs.DosCalls.FindFiles16
import TwoIne.DosCalls.ExecBlocks
import TwoIne.Proofs.DosCalls.ExecEnvironment
import TwoIne.Proofs.DosCalls.ExecArguments
import TwoIne.Lib2ine.PibSize
import TwoIne.Proofs.Lib2ine.PibSize
import TwoIne.Lib.StringBuffers
import TwoIne.LxLoader.UnixBuffers
import TwoIne.Proofs.LxLoader.UnixBuffers
import TwoIne.LxLoader.LocateBuffers
import TwoIne.Proofs.LxLoader.LocateBuffers
import TwoIne.Proofs.LxLoader.DirectoryTrees
import TwoIne.DosCalls.CurrentDirBuffers
import TwoIne.Proofs.DosCalls.CurrentDirBuffers
import TwoIne.DosCalls.DupHandle
import TwoIne.Proofs.DosCalls.DupHandle
import TwoIne.Proofs.DosCalls.ResetBuffer
import TwoIne.DosCalls.Beep
import TwoIne.Lib.ErrorDiffusion
import TwoIne.Proofs.DosCalls.BeepSamples
import TwoIne.Proofs.DosCalls.BeepTiming
import TwoIne.Debugger.SymbolMap
import TwoIne.Proofs.Debugger.SymbolMap
import TwoIne.Lib2ine.ConfigLines
import TwoIne.Proofs.Lib2ine.ConfigLines
import TwoIne.Lib.Frames
import TwoIne.Debugger.DebugAranges
import TwoIne.Proofs.Debugger.DebugAranges
import TwoIne.PmWin.PostMsg
import TwoIne.Proofs.PmWin.PostMsg
import TwoIne.LxLoader.CodeSegments
import TwoIne.Proofs.LxLoader.CodeSegments
import TwoIne.Debugger.ApiNames
import TwoIne.Proofs.Debugger.ApiNames
import TwoIne.Debugger.LdtAccess
import TwoIne.Proofs.Debugger.LdtAccess
import TwoIne.Lib.WordMemory
import TwoIne.Debugger.DebuggeeMemory
import TwoIne.Proofs.Debugger.DebuggeeMemory
import TwoIne.Msg.TrueGetMessage
import TwoIne.Proofs.Msg.TrueGetMessage
import TwoIne.Lib.ByteBlocks
import TwoIne.VioCalls.CellBuffer
import TwoIne.Proofs.VioCalls.CellBuffer
import TwoIne.Lib.Numerals
import TwoIne.Debugger.NextIp
import TwoIne.LxLoader.SanityCheck
import TwoIne.LxLoader.EntryPasses
import TwoIne.LxLoader.NeStartup
import TwoIne.Proofs.LxLoader.NeStartup
import TwoIne.Proofs.LxLoader.EntryPasses
import TwoIne.Proofs.LxLoader.NeEntryPasses
import TwoIne.Lib.Ordinals
import TwoIne.Proofs.LxLoader.SanityCheck
import TwoIne.Proofs.Debugger.ControlTransfers
import TwoIne.Proofs.Debugger.NextIp
import TwoIne.Proofs.Debugger.SoftwareStep
import TwoIne.Proofs.DosCalls.BeepTiming
import TwoIne.Debugger.SymbolMap
import TwoIne.Proofs.Debugger.SymbolMap
import TwoIne.Lib2ine.ConfigLines
import TwoIne.Proofs.Lib2ine.ConfigLines
import TwoIne.Lib.Frames
import TwoIne.Debugger.DebugAranges
import TwoIne.Proofs.Debugger.DebugAranges
import TwoIne.Lib.Patches
import TwoIne.LxLoader.NeFixups
import TwoIne.Proofs.LxLoader.NeFixups
import TwoIne.DosCalls.HandleCalls
import TwoIne.Lib.LinkWalks
import TwoIne.Lib.Ownership
import TwoIne.Lib.X86
import TwoIne.Lib.X86Rules
import TwoIne.LxLoader.Bridges
import TwoIne.LxLoader.NameTables
import TwoIne.Proofs.DosCalls.HandleRuns
import TwoIne.Proofs.LxLoader.BridgeCode
import TwoIne.Proofs.LxLoader.BridgeRuns
import TwoIne.Proofs.LxLoader.LdtSegments
import TwoIne.Proofs.LxLoader.NameTables
import TwoIne.Proofs.LxLoader.NeChains
import TwoIne.Proofs.LxLoader.NeSegments
import TwoIne.Proofs.LxLoader.Bridges
