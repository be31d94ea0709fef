import PwshPy.Text.PyStr
import PwshPy.Systemd.UnitFile
import PwshPy.Text.Errors
import PwshPy.Systemd.Scheduling
import PwshPy.Systemd.Timers
import PwshPy.Systemd.UnitText
import PwshPy.Systemd.UnitMeaning
import PwshPy.Systemd.TimerBases
import PwshPy.Systemd.ScheduleRuns
import PwshPy.Systemd.UnitName
import PwshPy.Systemd.TaskNames
import PwshPy.Systemd.Ownership
import PwshPy.Effects.Triple
import PwshPy.Effects.Asking
import PwshPy.Systemd.Controller
import PwshPy.Systemd.ControllerSafety
import PwshPy.Systemd.ControllerRuns
import PwshPy.Systemd.RoundTrip
import PwshPy.Systemd.Bus
import PwshPy.Systemd.Records
import PwshPy.Systemd.Listing
import PwshPy.Systemd.ListingRefusals
import PwshPy.Systemd.Manager
import PwshPy.Systemd.ListingLookup
import PwshPy.Search.Worklist
import PwshPy.Search.PathFinder
import PwshPy.Packing.Imports
import PwshPy.Packing.Closure
import PwshPy.Packing.Fidelity
import PwshPy.Packing.EntrySearch
import PwshPy.Text.Lines
import PwshPy.Text.Quoting
import PwshPy.Packing.Runner
import PwshPy.Effects.Interleaving
import PwshPy.Storage.Directory
import PwshPy.Unpack.Protocol
import PwshPy.Unpack.Exclusion
import PwshPy.Unpack.Extraction
import PwshPy.Unpack.Steps
import PwshPy.Unpack.ColdStart
import PwshPy.Unpack.Clean
import PwshPy.Storage.Variables
import PwshPy.Handover.Shim
import PwshPy.Handover.Account
import PwshPy.Handover.RootRun
import PwshPy.Handover.PowerShellRun
import PwshPy.Toml.Marks
import PwshPy.Toml.Syntax
import PwshPy.Packing.Scanner
import PwshPy.Packing.ScannedDocument
import PwshPy.Packing.ScriptBlock
import PwshPy.Toml.Places
import PwshPy.Toml.Definitions
import PwshPy.Packing.GitSource
import PwshPy.Services.Drive
import PwshPy.Services.DriveSafety
import PwshPy.Naming.FirstFree
import PwshPy.Storage.Dict
import PwshPy.Text.Surrogates
import PwshPy.Records.Values
import PwshPy.Records.Repair
import PwshPy.Records.Lossless
import PwshPy.Records.Annotations
import PwshPy.Records.Dumping
import PwshPy.Records.TwoRoutes
import PwshPy.Bytes.Endian
import PwshPy.Acl.PosixAcl
import PwshPy.Acl.Edits
import PwshPy.Storage.Nested
import PwshPy.Config.Overrides
import PwshPy.Config.OverrideMerge
import PwshPy.Files.TextFile
import PwshPy.Shell.Words
import PwshPy.Packing.UvArgs
import PwshPy.Shell.PowerShell
import PwshPy.Packing.AnchoredArgs
import PwshPy.Processes.Tree
import PwshPy.Native.TreeReaper
import PwshPy.Packing.ReferenceBlock
import PwshPy.Text.Repr
import PwshPy.Packing.ShimSource
import PwshPy.Packing.BlockAgreement
import PwshPy.Packing.RequiresPython
import PwshPy.Packing.TopLevelKey
import PwshPy.Packing.DecidingPair
import PwshPy.Bytes.Base64
import PwshPy.Files.Decoding
import PwshPy.Packing.WrapperSwitches
import PwshPy.Packing.ArgumentVector
import PwshPy.Shell.WindowsCommandLine
import PwshPy.Packing.CommandLine
import PwshPy.Packing.PosixSwitches
import PwshPy.Packing.GitVersion
import PwshPy.Systemd.ExecProgram
import PwshPy.Shell.Fields
import PwshPy.Packing.InterpreterVariables
import PwshPy.Text.Runs
import PwshPy.Packing.RelativeRequirement
import PwshPy.Effects.ForEach
import PwshPy.Packing.Unpack
import PwshPy.Packing.RefusedUnpack
import PwshPy.Files.Encodable
import PwshPy.Packing.PackScript
import PwshPy.Packing.RunnerText
import PwshPy.Packing.PackErrors
import PwshPy.Packing.ErrorContract
import PwshPy.Packing.Manifest
import PwshPy.Systemd.SettingsRoundTrip
import PwshPy.Text.Digits
import PwshPy.Acl.Trustees
import PwshPy.Files.Buffered
import PwshPy.Native.StatusJson
import PwshPy.Native.StatusReport
import PwshPy.Native.TreeLoops
import PwshPy.Accounts.NewUser
import PwshPy.Accounts.Tried
import PwshPy.Accounts.Course
import PwshPy.Accounts.PartialCreate
import PwshPy.Effects.Dialogue
import PwshPy.Systemd.Transition
import PwshPy.Systemd.TransitionPolls
import PwshPy.Systemd.TransitionRuns
import PwshPy.Native.ErrorChain
import PwshPy.Xml.Tree
import PwshPy.Xml.Builder
import PwshPy.Xml.Paths
import PwshPy.Wim.Fields
import PwshPy.Wim.Children
import PwshPy.Wim.Reader
import PwshPy.Wim.Contract
import PwshPy.Records.JsonBytes
import PwshPy.Records.PyValues
import PwshPy.Records.DumpAgreement
import PwshPy.Effects.Generators
import PwshPy.Native.TaskTree
import PwshPy.Native.TaskWalk
import PwshPy.Text.Regex
import PwshPy.Numbers.Double
import PwshPy.Native.TaskDurations
import PwshPy.Native.DurationGrammar
import PwshPy.Native.UserDirs
import PwshPy.Native.UserDirLines
import PwshPy.Native.Download
import PwshPy.Records.Matching
import PwshPy.Records.PruningSound
import PwshPy.Hosted.Promise
import PwshPy.Packing.RunnerLines
import PwshPy.Packing.RunnerPieces
import PwshPy.Packing.ReadBack
import PwshPy.Text.Order
import PwshPy.Packing.PackedNames
import PwshPy.Packing.Restored
import PwshPy.Packing.PackRoundTrip
import PwshPy.Effects.Amid
import PwshPy.FileTree.Nodes
import PwshPy.FileTree.Held
import PwshPy.FileTree.Resolve
import PwshPy.Trust.Stat
import PwshPy.Trust.Walk
import PwshPy.Trust.Judged
import PwshPy.Trust.WalkSound
import PwshPy.Trust.CleanPath
import PwshPy.Trust.FindUv
import PwshPy.Jobs.Host
import PwshPy.Jobs.JobTree
import PwshPy.Jobs.JobTreeSafe
import PwshPy.Records.TrustedData
import PwshPy.Search.Importing
