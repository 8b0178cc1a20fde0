import PointNetwork.Storage.ReadStreamTheorems
import PointNetwork.HostStorage.ApiTheorems
import PointNetwork.HostStorage.RootTheorems
import PointNetwork.HostStorage.Sequential
import PointNetwork.HostStorage.Sync
import PointNetwork.Network.EventCacheTheorems
import PointNetwork.Storage.DirectoryTheorems
import PointNetwork.Uploader.ResolutionTheorems
import PointNetwork.Uploader.FailureTheorems
import PointNetwork.Encryption.SymbolicBytes
import PointNetwork.Uploader.Enqueue
import PointNetwork.Uploader.WakeupTheorems
import PointNetwork.Uploader.DownloadTheorems
import PointNetwork.Uploader.DiskTheorems
import PointNetwork.Network.Web3Send
import PointNetwork.Deployer.VersionTheorems
import PointNetwork.Deployer.DeployTheorems
import PointNetwork.Proxy.LocalRoot
import PointNetwork.Encryption.IdentityUtils
import PointNetwork.Proxy.Svg
import PointNetwork.NameService.RegistryTheorems
import PointNetwork.Rpc.PendingTxsTheorems
import PointNetwork.Network.IkvTheorems
import PointNetwork.Storage.CallbacksTheorems
import PointNetwork.Storage.PubsubTheorems
import PointNetwork.Storage.MerkleTheorems
import PointNetwork.Encryption.EnvelopeTheorems
import PointNetwork.Network.ScanLoop
import PointNetwork.Storage.LocalDownloadTheorems
import PointNetwork.Uploader.ConcurrentDownloads
import PointNetwork.Rpc.DecodeTheorems
import PointNetwork.Storage.StreamScheduleTheorems
import PointNetwork.Storage.ContentLength
import PointNetwork.HostStorage.ListOperations
import PointNetwork.HostStorage.Listing
import PointNetwork.Network.ScanReach
import PointNetwork.Network.VersionStrategies
import PointNetwork.Background.Scheduler
import PointNetwork.CacheRuns
import PointNetwork.CreateCache
import PointNetwork.Network.SendToContract
import PointNetwork.Deployer.Progress
import PointNetwork.NameService.Conflicts
import PointNetwork.NameService.IdentityTheorems
import PointNetwork.Deployer.KeyValueTheorems
import PointNetwork.Encryption.ContainerTheorems
import PointNetwork.Proxy.RouteRewriting
import PointNetwork.Network.EventPages
import PointNetwork.Storage.IpfsNode
import PointNetwork.Permissions.PermissionStore
import PointNetwork.Uploader.DirectoryWakeups
import PointNetwork.Uploader.DirectoryCompletion
import PointNetwork.Deployer.FetchOrDeployTheorems
import PointNetwork.Proxy.RequestTheorems
import PointNetwork.Proxy.EncryptedStorage
import PointNetwork.Encryption.SitesBytes
import PointNetwork.NameService.DomainCache
import PointNetwork.NameService.Domains
