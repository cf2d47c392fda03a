import Gameos.MachineWords
import Gameos.ByteMemory
import Gameos.DyadicBlocks
import Gameos.TransitionRuns
import Gameos.AllocatorTypes
import Gameos.BuddyAllocator
import Gameos.BuddyInvariant
import Gameos.BuddyPartition
import Gameos.BuddySteps
import Gameos.BuddyRegions
import Gameos.BuddyRuns
import Gameos.BuddyCoalescing
import Gameos.RingBuffer
import Gameos.Scheduler
import Gameos.SchedulerInvariant
import Gameos.SchedulerStacks
import Gameos.SchedulerSafety
import Gameos.SchedulerAssertions
import Gameos.SchedulerHandles
import Gameos.ThreadContexts
import Gameos.ThreadDestructors
import Gameos.TriangularProbe
import Gameos.FiniteMaps
import Gameos.HashTable
import Gameos.HashTableProbes
import Gameos.HashTableInvariant
import Gameos.HashTableSteps
import Gameos.HashTableGrowth
import Gameos.HashTableRuns
import Gameos.Leb128
import Gameos.ByteReader
import Gameos.LebReaders
import Gameos.DwarfForms
import Gameos.DwarfLine
import Gameos.BoundedLoops
import Gameos.DwarfEntries
import Gameos.LineProgram
import Gameos.DwarfLineTurns
import Gameos.DwarfLineTables
import Gameos.ReaderRuns
import Gameos.DwarfProgress
import Gameos.DwarfLineProgress
import Gameos.DwarfEncoding
import Gameos.DwarfAbbreviations
import Gameos.DwarfWalk
import Gameos.DwarfUnits
import Gameos.DwarfSubprograms
import Gameos.AllocatorCalls
import Gameos.AllocatorContract
import Gameos.DebugAllocator
import Gameos.BumpAllocators
import Gameos.ShootdownStartup
import Gameos.TetrisLayers
import Gameos.TetrisShadow
import Gameos.TetrisRotation
import Gameos.FormatStrings
import Gameos.ProcessorMailbox
import Gameos.PanicPath
import Gameos.InputHistory
import Gameos.DwarfSourceLookup
import Gameos.ArrayStorage
import Gameos.ArrayAllocation
import Gameos.HashTableReservation
import Gameos.HashTableKeys
import Gameos.BuddyRegionBlocks
import Gameos.TemporaryFailures
import Gameos.FilesystemPaths
import Gameos.EmbeddedResources
import Gameos.ResourceWorkers
import Gameos.SourceLexer
import Gameos.PreprocessorConstants
import Gameos.EnumPrescan
import Gameos.PreprocessorRun
import Gameos.RingBufferRuns
import Gameos.WordScrambles
import Gameos.RandomNumbers
import Gameos.MouseDecoding
import Gameos.NinePatch
import Gameos.ClippedRectangles
import Gameos.LineRasterization
import Gameos.LinkedChains
import Gameos.StringBuilder
import Gameos.StringBuilderRuns
import Gameos.OwnedStrings
import Gameos.NumberRendering
import Gameos.AllocatorLending
import Gameos.BumpRuns
import Gameos.BumpPlacement
import Gameos.TemporaryMarks
import Gameos.BumpOwnership
import Gameos.PreprocessorDirectives
import Gameos.PreprocessorLoops
import Gameos.PreprocessorSafety
import Gameos.GlobalDestructors
import Gameos.MadtEntries
import Gameos.InterruptRouting
import Gameos.BuddyFrames
import Gameos.BuddyStaleness
import Gameos.AddressWalks
import Gameos.BootInformation
import Gameos.RegionCovers
import Gameos.BootReservation
import Gameos.BuddySpares
import Gameos.BuddyResize
import Gameos.BuddyOutcomes
import Gameos.MemoryRoutines
import Gameos.KeyboardDecoding
import Gameos.Spinlocks
import Gameos.LockOrder
import Gameos.FramePipeline
import Gameos.DepthOrder
import Gameos.CircleRasterization
import Gameos.SchedulerFairness
import Gameos.ArrayLifetimes
import Gameos.ArrayOwnership
import Gameos.ArrayRefinement
import Gameos.ArrayRuns
import Gameos.BootHeap
import Gameos.AcpiTables
import Gameos.TextGrid
import Gameos.TextLayout
import Gameos.TerminalOutput
