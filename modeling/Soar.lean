import Soar.Communication.Encoding
import Soar.Communication.RepeatedPackets
import Soar.Communication.InOrderDelivery
import Soar.Communication.LateArrival
import Soar.Communication.IndexSafety
import Soar.Communication.KernelAccess
import Soar.Communication.RankAccess
import Soar.Communication.RankComputations
import Soar.Communication.TransmitQueue
import Soar.Communication.FrameRoundTrip
import Soar.Computing.JobIdentity
import Soar.Computing.SequentialMeaning
import Soar.Computing.DeadlockFreedom
import Soar.Computing.FailureAtomicity
import Soar.Computing.RoundTrip
import Soar.Computing.ConsumerSizes
import Soar.Computing.SelectorRange
import Soar.ConfigGen.OwnSensor
import Soar.ConfigGen.PriorityRanks
import Soar.Dispatcher.Schedulability
import Soar.Dispatcher.SensorIdentity
import Soar.Dispatcher.MasterServer
import Soar.Dispatcher.TaskHeap
import Soar.Dispatcher.Hosts
import Soar.Dispatcher.SensorPositions
import Soar.Dispatcher.ChangeTracking
import Soar.Scheduler.HandshakeProgress
import Soar.Scheduler.NextSelection
import Soar.Scheduler.BackoffGuarantee
import Soar.Scheduler.DemoDeadlines
import Soar.Preprocessing.PipelineDelivery
import Soar.Scheduler.MissedJobs
import Soar.Node.AllocationRounds
import Soar.Node.DeliveredDeployments
import Soar.Node.SensorSettings
import Soar.Node.SerialMonitors
import Soar.Communication.TransmitProgress
import Soar.Communication.TransmitNotify
import Soar.Communication.LinkDelivery
import Soar.Communication.Roaming
import Soar.Inference.ScatterPlugin
