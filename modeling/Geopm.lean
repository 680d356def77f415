import Geopm.Agent.CPUActivityAgent
import Geopm.Agent.ClassOfService
import Geopm.Agent.FrequencyMapAgent
import Geopm.Agent.RuntimeWindow
import Geopm.Agent.SentRuntime
import Geopm.Agent.SlackShares
import Geopm.App.Affinity
import Geopm.App.CpusetBounds
import Geopm.App.ExactRepeats
import Geopm.App.FailedCall
import Geopm.App.FilterName
import Geopm.App.RegionAccounting
import Geopm.App.RegionAverages
import Geopm.App.SamplerCpu
import Geopm.App.ThreadProgress
import Geopm.Launch.AffinityList
import Geopm.Opt.ControlGrid
import Geopm.Opt.MetricTerms
import Geopm.Opt.Optimizer
import Geopm.Pbs.PiecewiseModel
import Geopm.Pbs.PowerLimitHook
import Geopm.Pio.ActiveClocks
import Geopm.Pio.BatchServer
import Geopm.Pio.BatchStream
import Geopm.Pio.Controls
import Geopm.Pio.CpuPartition
import Geopm.Pio.DerivativeSignal
import Geopm.Pio.DrmGpuTopo
import Geopm.Pio.MinMaxBatches
import Geopm.Pio.NVMLGPUTopo
import Geopm.Pio.NVMLIOGroup
import Geopm.Pio.PowercapEnergy
import Geopm.Pio.PushIndices
import Geopm.Pio.SSTEnables
import Geopm.Pio.SSTSample
import Geopm.Pio.SampleSafety
import Geopm.Pio.SaveHistory
import Geopm.Pio.SavedSettings
import Geopm.Pio.ServiceIOGroup
import Geopm.Pio.StatsCollector
import Geopm.Pio.SysfsBatch
import Geopm.Pio.TopoCache
import Geopm.Pio.UncoreFreqSysfsDriver
import Geopm.Service.AccessEdits
import Geopm.Service.BatchServers
import Geopm.Service.Doors
import Geopm.Service.Isolation
import Geopm.Service.LockBookkeeping
import Geopm.Service.LockFile
import Geopm.Service.NestedLock
import Geopm.Service.ProfilerLock
import Geopm.Service.Profiles
import Geopm.Service.ReferenceCounts
import Geopm.Service.RestorableFile
import Geopm.Service.SessionFiles
import Geopm.Service.SingleWriter
import Geopm.Session.SettingsRestored
import Geopm.Session.TimedLoop
import Geopm.Tree.Endpoint
import Geopm.Tree.TreeCommLevel
import Geopm.Tree.TreeShape
