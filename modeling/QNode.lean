import QNode.Buffer.Accessors
import QNode.Buffer.Base64
import QNode.Buffer.Base64Accept
import QNode.Buffer.Copy
import QNode.Buffer.Encoding
import QNode.Buffer.Heap
import QNode.Buffer.Methods
import QNode.Buffer.Safety
import QNode.Buffer.Search
import QNode.Buffer.Subarray
import QNode.ChildProcess.Deadlock
import QNode.ChildProcess.DeadlockRuns
import QNode.ChildProcess.Descriptors
import QNode.ChildProcess.Events
import QNode.ChildProcess.ExecFile
import QNode.ChildProcess.GrowBuf
import QNode.ChildProcess.MaxBuffer
import QNode.ChildProcess.SpawnSync
import QNode.ChildProcess.WaitStatus
import QNode.Engine.Strings
import QNode.Engine.Utf8
import QNode.Engine.Values
import QNode.Fs.Durable
import QNode.Fs.Exclusive
import QNode.Fs.FileHandle
import QNode.Fs.Files
import QNode.Fs.Latin1
import QNode.Fs.Open
import QNode.Fs.Positions
import QNode.Fs.Posix
import QNode.Fs.Rm
import QNode.Fs.RmFrame
import QNode.Fs.StaleHandles
import QNode.Fs.TextFiles
import QNode.Library.Bits
import QNode.Library.DescriptorTable
import QNode.Library.FileContents
import QNode.Library.Octets
import QNode.Library.Runs
import QNode.Library.Sextets
import QNode.Library.Splice
import QNode.Library.Words
import QNode.Fs.SyncCalls
import QNode.Fs.CStrings
import QNode.Fs.Promises
import QNode.Fs.WriteRuns
import QNode.ChildProcess.EventEmitter
import QNode.ChildProcess.Once
import QNode.ChildProcess.Schedule
import QNode.ChildProcess.Signals
import QNode.ChildProcess.Output
import QNode.Engine.TextDecoder
import QNode.ChildProcess.Decoding
import QNode.ChildProcess.Launch
import QNode.ChildProcess.SharedOptions
import QNode.ChildProcess.Environment
import QNode.ChildProcess.Turns
import QNode.Buffer.Writers
import QNode.Library.Mirror
import QNode.Buffer.Hex
import QNode.Buffer.Swap
import QNode.Buffer.From
import QNode.Buffer.Concat
import QNode.Buffer.Conversions
import QNode.Timers.Clearing
import QNode.Timers.Ticks
import QNode.ChildProcess.CreateProcess
import QNode.ChildProcess.ProcessEnv
import QNode.Buffer.Compare
import QNode.Buffer.Decode
import QNode.Buffer.IndexOf
import QNode.Buffer.WriteText
import QNode.Buffer.EmptyText
import QNode.Buffer.SharedViews
import QNode.Engine.Numbers
import QNode.Buffer.FromArrayBuffer
import QNode.Buffer.Bounds
import QNode.Buffer.Saturation
import QNode.Fs.RangeGuards
import QNode.Fs.Mkdir
import QNode.Fs.RmPaths
import QNode.Fs.RmClears
import QNode.Fs.RmComplete
import QNode.Fs.MkdirTmp
import QNode.Fs.CopyFile
import QNode.Fs.CallForms
import QNode.Fs.ReadFile
import QNode.ChildProcess.ExecSync
import QNode.ChildProcess.WorkingDirectory
import QNode.ChildProcess.StandardStreams
import QNode.ChildProcess.ResourceBalance
import QNode.ChildProcess.PipeViews
import QNode.Buffer.Base64Stores
import QNode.Fs.RmTrace
import QNode.Library.Halting
import QNode.Main.Options
import QNode.Main.OptionLoop
import QNode.Main.OptionSplit
import QNode.ChildProcess.Arguments
import QNode.Timers.AnyClear
import QNode.Core.Leb128
import QNode.Core.Messages
import QNode.Library.Ledger
import QNode.Workers.Accounts
import QNode.Workers.Calls
import QNode.Workers.Progress
import QNode.Promises.Changes
import QNode.Promises.Reactions
import QNode.Promises.Runs
