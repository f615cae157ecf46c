import Sysprog.Library.CheckedRuns
import Sysprog.Library.Heap
import Sysprog.Library.ArrayQueue
import Sysprog.Library.Scanner
import Sysprog.Library.DescriptorTable
import Sysprog.Library.Processes
import Sysprog.Library.Mutex
import Sysprog.Library.PairedRuns
import Sysprog.Library.Refinement
import Sysprog.Userfs.Memory
import Sysprog.Userfs.Blocks
import Sysprog.Userfs.Calls
import Sysprog.Userfs.CallEffects
import Sysprog.Userfs.ClientLedger
import Sysprog.Userfs.DescriptorNumbers
import Sysprog.Userfs.FileList
import Sysprog.Userfs.StoredContent
import Sysprog.Userfs.RecordedDescriptors
import Sysprog.Userfs.RecordedFiles
import Sysprog.Userfs.FileLifetime
import Sysprog.Userfs.MemoryAccounting
import Sysprog.Userfs.UnclosedRuns
import Sysprog.Userfs.FileIsolation
import Sysprog.Userfs.ListStructure
import Sysprog.Userfs.ClosedDescriptors
import Sysprog.Userfs.WrittenBytes
import Sysprog.Userfs.BlockChains
import Sysprog.Userfs.Reads
import Sysprog.Userfs.ReadOffsets
import Sysprog.Userfs.FailedCalls
import Sysprog.Userfs.TableBounds
import Sysprog.Userfs.PairedStates
import Sysprog.Userfs.PairedCalls
import Sysprog.Userfs.SetFields
import Sysprog.Userfs.ReportedErrors
import Sysprog.Userfs.Store
import Sysprog.Userfs.ReadAnswers
import Sysprog.Userfs.StoreRepresentation
import Sysprog.Userfs.StoreRefinement
import Sysprog.Threads.Pool
import Sysprog.Threads.Sections
import Sysprog.Threads.Deliveries
import Sysprog.Threads.QueueBounds
import Sysprog.Threads.Accesses
import Sysprog.Threads.AccessInvariants
import Sysprog.Threads.AccessRefinement
import Sysprog.Threads.Backlog
import Sysprog.Threads.TaskLives
import Sysprog.Threads.JoinOrder
import Sysprog.Threads.TaskDeletion
import Sysprog.Threads.JoinedTasks
import Sysprog.Threads.PoolDeletion
import Sysprog.Threads.WorkersLeft
import Sysprog.Threads.TaskExecute
import Sysprog.Threads.MainProgram
import Sysprog.Threads.MainStages
import Sysprog.Threads.MainRuns
import Sysprog.Threads.MainReturns
import Sysprog.Threads.LockSteps
import Sysprog.Threads.Reentry
import Sysprog.Threads.LockRefinement
import Sysprog.Shell.Commands
import Sysprog.Shell.LineParser
import Sysprog.Shell.Tokens
import Sysprog.Shell.TokenParser
import Sysprog.Shell.Pipelines
import Sysprog.Shell.ParsedStages
import Sysprog.Shell.ParsePrint
import Sysprog.Shell.RedirectionPlaces
import Sysprog.Shell.Readings
import Sysprog.Shell.Endings
import Sysprog.Shell.AcceptedLines
import Sysprog.Shell.Interpreter
import Sysprog.Shell.CommandRuns
import Sysprog.Shell.CommandAttempts
import Sysprog.Shell.ReturningProcesses
import Sysprog.Shell.PipelineWiring
import Sysprog.Shell.TokenSpans
import Sysprog.Shell.TokenOutcomes
import Sysprog.Shell.RedirectionLanding
import Sysprog.Shell.RedirectionOrder
import Sysprog.Shell.FailureReports
import Sysprog.Shell.PipeEnds
import Sysprog.Shell.ScanCmd
import Sysprog.Shell.TypedLines
import Sysprog.Shell.Dup2
import Sysprog.Shell.Dup2Tables
import Sysprog.Shell.Dup2Behaviour
import Sysprog.Shell.Dup2Stack
import Sysprog.Shell.Dup2Search
import Sysprog.Shell.Dup2Endings
import Sysprog.Arrays.IntArrays
import Sysprog.Arrays.Growth
import Sysprog.Arrays.AddedNumbers
import Sysprog.Arrays.ArrayCalls
import Sysprog.Arrays.HeldLists
