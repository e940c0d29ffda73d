import Patchbox.Lib.Bytes
import Patchbox.Lib.Memory
import Patchbox.Lib.Runs
import Patchbox.Lib.Overlay
import Patchbox.Lib.Pages
import Patchbox.Lib.Formats
import Patchbox.Lib.Sessions
import Patchbox.Lib.Programs
import Patchbox.Lib.Explained
import Patchbox.Lib.Displacements
import Patchbox.Lib.Transfers
import Patchbox.Lib.Loops
import Patchbox.Lib.Lines
import Patchbox.Lib.Stores
import Patchbox.Lib.Schedules
import Patchbox.Lib.Registers
import Patchbox.Lib.Cells
import Patchbox.Records
import Patchbox.PatchMap
import Patchbox.ReadPatch
import Patchbox.ReadPatchOutcome
import Patchbox.ReadPatchLog
import Patchbox.Trampolines
import Patchbox.Apply
import Patchbox.RepeatedSwap
import Patchbox.Undo
import Patchbox.Dependents
import Patchbox.Requests
import Patchbox.Placement
import Patchbox.Histories
import Patchbox.StaleJumps
import Patchbox.PatchRecords
import Patchbox.PatchFile
import Patchbox.PatchFormat
import Patchbox.ApplyBuffer
import Patchbox.OldLayout
import Patchbox.Messages
import Patchbox.Dispatch
import Patchbox.Listener
import Patchbox.ServerRuns
import Patchbox.BlobsKept
import Patchbox.UndoAll
import Patchbox.Exchange
import Patchbox.InStep
import Patchbox.CmdApply
import Patchbox.CmdApplyRules
import Patchbox.CmdApplyResult
import Patchbox.Clients
import Patchbox.RelocBounds
import Patchbox.Relocations
import Patchbox.Jumps
import Patchbox.SecondLevel
import Patchbox.Refusals
import Patchbox.Extents
import Patchbox.Passes
import Patchbox.ClientMemory
import Patchbox.Sending
import Patchbox.ReadBounds
import Patchbox.ListReply
import Patchbox.Paging
import Patchbox.BuildInfo
import Patchbox.Sha1Text
import Patchbox.SectionEnds
import Patchbox.Filling
import Patchbox.ReadWrite
import Patchbox.FileHash
import Patchbox.HexText
import Patchbox.NamedFiles
import Patchbox.CmdUndo
import Patchbox.Options
import Patchbox.Invocations
import Patchbox.LiveSets
import Patchbox.AfterUndo
import Patchbox.ProcMaps
import Patchbox.SandboxStart
import Patchbox.FileToText
