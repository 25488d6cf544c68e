import Ntmd.Api.APIController
import Ntmd.Api.LiveStreams
import Ntmd.Api.Request
import Ntmd.Config.ArgumentParser
import Ntmd.Config.Config
import Ntmd.Daemon
import Ntmd.Lib.Bytes
import Ntmd.Lib.CInt
import Ntmd.Lib.FirstMatch
import Ntmd.Lib.Json
import Ntmd.Lib.JsonRead
import Ntmd.Lib.Ledger
import Ntmd.Lib.LoadMap
import Ntmd.Lib.LocalTime
import Ntmd.Lib.MapSum
import Ntmd.Lib.MissCache
import Ntmd.Lib.Recency
import Ntmd.Lib.Run
import Ntmd.Lib.Scanf
import Ntmd.Lib.Sqlite.Conn
import Ntmd.Lib.Sqlite.Format
import Ntmd.Lib.Sqlite.Forward
import Ntmd.Lib.Sqlite.Text
import Ntmd.Lib.Trace
import Ntmd.Lib.WhileLoop
import Ntmd.Main
import Ntmd.Monitor
import Ntmd.Net.Frame
import Ntmd.Net.IPList
import Ntmd.Net.Packet
import Ntmd.Net.PacketHash
import Ntmd.Net.SnifferLoop
import Ntmd.Net.WireFrame
import Ntmd.Proc.KernelLine
import Ntmd.Proc.KernelLinks
import Ntmd.Proc.ProcessIndex
import Ntmd.Proc.ProcessResolver
import Ntmd.Proc.SocketIndex
import Ntmd.Proofs.Accounts
import Ntmd.Proofs.Answers
import Ntmd.Proofs.AppendOnly
import Ntmd.Proofs.Applications
import Ntmd.Proofs.Attribution
import Ntmd.Proofs.Booked
import Ntmd.Proofs.BrokenPipe
import Ntmd.Proofs.Calls
import Ntmd.Proofs.CaptureTotals
import Ntmd.Proofs.Clock
import Ntmd.Proofs.CommandLine
import Ntmd.Proofs.ConfigText
import Ntmd.Proofs.Connections
import Ntmd.Proofs.Conservation
import Ntmd.Proofs.Conversations
import Ntmd.Proofs.Deliveries
import Ntmd.Proofs.Deposit
import Ntmd.Proofs.Fetch
import Ntmd.Proofs.FirstOwner
import Ntmd.Proofs.FolderReads
import Ntmd.Proofs.Fragments
import Ntmd.Proofs.FrameParse
import Ntmd.Proofs.FrameReads
import Ntmd.Proofs.HandOff
import Ntmd.Proofs.History
import Ntmd.Proofs.InodeReaders
import Ntmd.Proofs.LeastRecent
import Ntmd.Proofs.Lifetimes
import Ntmd.Proofs.LinkBuffer
import Ntmd.Proofs.LocalAddresses
import Ntmd.Proofs.LocalMidnight
import Ntmd.Proofs.Losses
import Ntmd.Proofs.MappedAddresses
import Ntmd.Proofs.NotFound
import Ntmd.Proofs.NumericSettings
import Ntmd.Proofs.PlainScan
import Ntmd.Proofs.Precedence
import Ntmd.Proofs.ProcessCache
import Ntmd.Proofs.Protocols
import Ntmd.Proofs.Provenance
import Ntmd.Proofs.Reads
import Ntmd.Proofs.Replies
import Ntmd.Proofs.RequestBuffer
import Ntmd.Proofs.ResponseText
import Ntmd.Proofs.RoundTrip
import Ntmd.Proofs.SameKey
import Ntmd.Proofs.ScannedOnce
import Ntmd.Proofs.Signals
import Ntmd.Proofs.SocketLine
import Ntmd.Proofs.Startup
import Ntmd.Proofs.Statements
import Ntmd.Proofs.SteadyFolders
import Ntmd.Proofs.SteadyHost
import Ntmd.Proofs.SteadyTables
import Ntmd.Proofs.Stored
import Ntmd.Proofs.Streams
import Ntmd.Proofs.TableNames
import Ntmd.Proofs.TimestampRequests
import Ntmd.Proofs.Told
import Ntmd.Proofs.Transaction
import Ntmd.Proofs.TrimIterators
import Ntmd.Proofs.Undisplaced
import Ntmd.Proofs.UnitIndex
import Ntmd.Proofs.WholeDeposits
import Ntmd.Service
import Ntmd.Start
import Ntmd.Traffic.DBController
import Ntmd.Traffic.Database
import Ntmd.Traffic.SharedHandle
import Ntmd.Traffic.TrafficStorage
import Ntmd.Util.HumanReadable
import Ntmd.Util.LRUArray
import Ntmd.Util.StringUtil
