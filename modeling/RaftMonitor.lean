import RaftMonitor.Text
import RaftMonitor.CStrings
import RaftMonitor.Runs
import RaftMonitor.StdMap
import RaftMonitor.WireBytes
import RaftMonitor.ProcessTable
import RaftMonitor.PacketTypes
import RaftMonitor.EtcdPackets
import RaftMonitor.LogCabinWire
import RaftMonitor.MessageSocket
import RaftMonitor.SortedMap
import RaftMonitor.Tree
import RaftMonitor.FileSystem
import RaftMonitor.TreeClient
import RaftMonitor.StateMachine
import RaftMonitor.ExactlyOnce
import RaftMonitor.Monitor
import RaftMonitor.FrameDecoding
import RaftMonitor.Segments
import RaftMonitor.TestInterval
import RaftMonitor.ClusterConfig
import RaftMonitor.EtcdClient
import RaftMonitor.Processes
import RaftMonitor.EtcdLaunch
import RaftMonitor.ConfFile
import RaftMonitor.NodeAttribution
import RaftMonitor.LeaderTracking
import RaftMonitor.ClientThreads
import RaftMonitor.TreeThreads
import RaftMonitor.Shutdown
import RaftMonitor.Driver
import RaftMonitor.Firewall
import RaftMonitor.CommandLine
import RaftMonitor.ElectedLogs
import RaftMonitor.RaftConsensus
import RaftMonitor.RaftRefinement
import RaftMonitor.RaftSafety
import RaftMonitor.RaftClients
import RaftMonitor.RaftPacking
import RaftMonitor.RaftServers
