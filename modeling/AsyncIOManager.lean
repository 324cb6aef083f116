import AsyncIOManager.Runs
import AsyncIOManager.EventLoop
import AsyncIOManager.Held
import AsyncIOManager.Balance
import AsyncIOManager.Transfer
import AsyncIOManager.Ledger
import AsyncIOManager.Text
import AsyncIOManager.Results
import AsyncIOManager.URLStringUtil
import AsyncIOManager.HTTPCommon
import AsyncIOManager.HTTPDownload
import AsyncIOManager.HTTPDeadline
import AsyncIOManager.WSCommon
import AsyncIOManager.WSDownload
import AsyncIOManager.FileManager
import AsyncIOManager.OutstandingOperations
import AsyncIOManager.ContextStop
import AsyncIOManager.LoadErrors
import AsyncIOManager.SFTPSaver
import AsyncIOManager.Ssh2Session
import AsyncIOManager.SFTPUpload
import AsyncIOManager.SFTPTracking
import AsyncIOManager.SFTPCompletion
import AsyncIOManager.SFTPIntegrity
import AsyncIOManager.SFTPRelease
import AsyncIOManager.SFTPSaveFile
import AsyncIOManager.SFTPLibrary
import AsyncIOManager.IPFSCommon
import AsyncIOManager.IPFSDiscovery
import AsyncIOManager.BitswapOwner
import AsyncIOManager.BitswapPairs
import AsyncIOManager.Carried
import AsyncIOManager.Paths
import AsyncIOManager.FileStore
import AsyncIOManager.MNNSaver
import AsyncIOManager.MNNCompletion
import AsyncIOManager.MNNStoring
import AsyncIOManager.MNNLoader
import AsyncIOManager.LoadedFiles
import AsyncIOManager.LoadThenSave
import AsyncIOManager.IPFSSaver
import AsyncIOManager.IPFSCompletion
import AsyncIOManager.IPFSStaging
import AsyncIOManager.IPFSIsolation
import AsyncIOManager.PathContainment
import AsyncIOManager.SFTPLocation
import AsyncIOManager.SaveLocation
import AsyncIOManager.SFTPAddress
import AsyncIOManager.SFTPPriority
import AsyncIOManager.SFTPParsedBack
import AsyncIOManager.SFTPRejected
import AsyncIOManager.SFTPWriteLoops
import AsyncIOManager.WSFraming
import AsyncIOManager.HTTPMessage
import AsyncIOManager.HTTPDecoding
import AsyncIOManager.ContextShutdown
import AsyncIOManager.IPFSLoader
import AsyncIOManager.LoadedBack
import AsyncIOManager.HTTPAddress
import AsyncIOManager.FileExtension
import AsyncIOManager.HTTPRequest
import AsyncIOManager.HTTPGet
import AsyncIOManager.IPFSProviders
import AsyncIOManager.IPFSInstance
import AsyncIOManager.Descriptors
import AsyncIOManager.FILECommon
import AsyncIOManager.FILEOwnership
import AsyncIOManager.FILETransfer
import AsyncIOManager.Rank
import AsyncIOManager.HTTPLiveness
import AsyncIOManager.Composition
import AsyncIOManager.IPFSReports
import AsyncIOManager.ManagerWorld
import AsyncIOManager.ManagerSavers
import AsyncIOManager.ManagerSystem
import AsyncIOManager.IPFSEnding
import AsyncIOManager.ManagerDrains
import AsyncIOManager.SFTPEnding
import AsyncIOManager.MNNEnding
import AsyncIOManager.LocalStore
