import OpLog.Format.Attempt
import OpLog.Format.Dates
import OpLog.Format.Frame
import OpLog.Format.LateAttempt
import OpLog.Format.Settled
import OpLog.Format.StoredZlib
import OpLog.Format.TailWalk
import OpLog.Format.WalkVerdict
import OpLog.Guarantees.Accepted
import OpLog.Guarantees.Alike
import OpLog.Guarantees.Attribution
import OpLog.Guarantees.Bundles
import OpLog.Guarantees.Conservation
import OpLog.Guarantees.Convergence
import OpLog.Guarantees.Creation
import OpLog.Guarantees.Dating
import OpLog.Guarantees.Delivery
import OpLog.Guarantees.Drain
import OpLog.Guarantees.EndToEnd
import OpLog.Guarantees.Expiry
import OpLog.Guarantees.Flush
import OpLog.Guarantees.FlushInterval
import OpLog.Guarantees.Forgetting
import OpLog.Guarantees.Handles
import OpLog.Guarantees.Header
import OpLog.Guarantees.Independence
import OpLog.Guarantees.Instances
import OpLog.Guarantees.Intake
import OpLog.Guarantees.Keystream
import OpLog.Guarantees.LateFrames
import OpLog.Guarantees.LateWrites
import OpLog.Guarantees.Latency
import OpLog.Guarantees.Naming
import OpLog.Guarantees.OneFile
import OpLog.Guarantees.OwnFile
import OpLog.Guarantees.Pipeline
import OpLog.Guarantees.Preservation
import OpLog.Guarantees.Pruning
import OpLog.Guarantees.QueueCap
import OpLog.Guarantees.ReadBack
import OpLog.Guarantees.Recovery
import OpLog.Guarantees.References
import OpLog.Guarantees.Registration
import OpLog.Guarantees.Replies
import OpLog.Guarantees.Reports
import OpLog.Guarantees.Restarts
import OpLog.Guarantees.Retained
import OpLog.Guarantees.Retention
import OpLog.Guarantees.RoundTrip
import OpLog.Guarantees.Routing
import OpLog.Guarantees.Rules
import OpLog.Guarantees.Shutdown
import OpLog.Guarantees.TailCheck
import OpLog.Guarantees.TwoWorkers
import OpLog.Library.DropQueue
import OpLog.Library.FrameStream
import OpLog.Library.GroupCode
import OpLog.Library.KeyedMap
import OpLog.Library.Machine
import OpLog.Library.Numerals
import OpLog.Library.Response
import OpLog.Library.Threads
import OpLog.Library.Total
import OpLog.Library.Trimming
import OpLog.Source.AddToLog
import OpLog.Source.Apart
import OpLog.Source.Channel
import OpLog.Source.CheckedStream
import OpLog.Source.CheckedWalk
import OpLog.Source.CleanUp
import OpLog.Source.DecodeFile
import OpLog.Source.DeleteFiles
import OpLog.Source.EncodeFrame
import OpLog.Source.FailingWalk
import OpLog.Source.FileOps
import OpLog.Source.GetInfo
import OpLog.Source.Io
import OpLog.Source.Keeping
import OpLog.Source.LateBytes
import OpLog.Source.Messages
import OpLog.Source.Outcome
import OpLog.Source.PerFile
import OpLog.Source.Process
import OpLog.Source.RunLoop
import OpLog.Source.SendLog
import OpLog.Source.Service
import OpLog.Source.Shutdown
import OpLog.Source.TailWalk
import OpLog.Source.Volume
import OpLog.Source.Worker
import OpLog.Source.WriteToFile
