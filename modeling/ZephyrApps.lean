import ZephyrApps.EstopHistory
import ZephyrApps.LockstepVerdicts
import ZephyrApps.LockstepFreshness
import ZephyrApps.LockstepIdentity
import ZephyrApps.LockstepParking
import ZephyrApps.LockstepBonds
import ZephyrApps.SessionSteps
import ZephyrApps.SessionWatchdog
import ZephyrApps.SessionPacing
import ZephyrApps.ComparatorLoops
import ZephyrApps.LockstepTransmission
import ZephyrApps.CrashLogWindow
import ZephyrApps.PeerChanges
import ZephyrApps.SessionSockets
import ZephyrApps.ThreadedRefinement
import ZephyrApps.SettingsReboot
import ZephyrApps.PeerTableRoute
import ZephyrApps.HandlerWrites
import ZephyrApps.SettingsFailures
import ZephyrApps.HttpIsolation
import ZephyrApps.BootDefaults
import ZephyrApps.CounterBlobs
import ZephyrApps.WarningBoards
import ZephyrApps.HealthService
import ZephyrApps.HealthPersistence
import ZephyrApps.HealthThreads
import ZephyrApps.HealthEdgeCounts
import ZephyrApps.Teleop
import ZephyrApps.TeleopLoop
import ZephyrApps.JsonTexts
import ZephyrApps.CodexJson
import ZephyrApps.CodexHid
import ZephyrApps.HidReassembly
import ZephyrApps.CodexRpc
import ZephyrApps.VideoBuffers
import ZephyrApps.CamMgmt
import ZephyrApps.CamPaging
import ZephyrApps.PrusaCfg
import ZephyrApps.CopiedUpdates
import ZephyrApps.CfgUpdates
import ZephyrApps.PrusaCam
import ZephyrApps.CfgChanged
import ZephyrApps.ConnectThread
import ZephyrApps.ConnectInfo
import ZephyrApps.ConnectStops
import ZephyrApps.WifiRoundTrip
import ZephyrApps.HealthEdges
import ZephyrApps.ArrayWrites
import ZephyrApps.StatusRing
import ZephyrApps.MismatchFilter
import ZephyrApps.CodexJsonPointers
import ZephyrApps.CodexJsonReads
import ZephyrApps.HidOverflow
import ZephyrApps.VideoCalls
import ZephyrApps.CaptureBuffers
import ZephyrApps.CameraBuffers
import ZephyrApps.CfgPosts
import ZephyrApps.CBuffers
import ZephyrApps.MjpegStream
import ZephyrApps.HttpQueries
import ZephyrApps.HttpNumerals
import ZephyrApps.TeleopCalibration
import ZephyrApps.KeyReports
import ZephyrApps.ReplyBuffers
import ZephyrApps.ApiState
import ZephyrApps.ApiBodies
import ZephyrApps.RoundRobin
import ZephyrApps.Uplinks
import ZephyrApps.WifiStation
import ZephyrApps.SwitchEvents
import ZephyrApps.KeyEvents
import ZephyrApps.RunLengths
import ZephyrApps.StatusPixel
import ZephyrApps.LedFrames
import ZephyrApps.DelayableWork
import ZephyrApps.TimeSync
import ZephyrApps.MotorWatchdog
import ZephyrApps.TrialImages
import ZephyrApps.ResetReasons
import ZephyrApps.JpegFiles
import ZephyrApps.SnapshotImages
import ZephyrApps.ConfigPages
import ZephyrApps.WebRoutes
import ZephyrApps.SnapshotFrames
import ZephyrApps.RemoteDrive
import ZephyrApps.LastLog
import ZephyrApps.DepthLists
import ZephyrApps.StackUsage
import ZephyrApps.FramedStreams
import ZephyrApps.ViewerStreams
import ZephyrApps.RosSessions
import ZephyrApps.PowerMeter
