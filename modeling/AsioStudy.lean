import AsioStudy.Core.TransitionSystem
import AsioStudy.Core.Mutex
import AsioStudy.Core.Termination
import AsioStudy.Core.RankedProgram
import AsioStudy.Core.AsyncObject
import AsioStudy.Core.Bytes
import AsioStudy.Core.IStream
import AsioStudy.Core.ErrorCode
import AsioStudy.Core.AsyncRead
import AsioStudy.Core.PartialTransfer
import AsioStudy.Core.CountedLoop
import AsioStudy.Core.Lines
import AsioStudy.Core.Path
import AsioStudy.Core.Pipe
import AsioStudy.Core.Joint
import AsioStudy.PartialIo.Model
import AsioStudy.PartialIo.Write
import AsioStudy.PartialIo.Read
import AsioStudy.Shutdown.Model
import AsioStudy.Shutdown.Exchange
import AsioStudy.SyncTcpClient.Model
import AsioStudy.SyncUdpClient.Model
import AsioStudy.SyncServer.Run
import AsioStudy.ThreadPool.Spawn
import AsioStudy.SyncService.Session
import AsioStudy.SyncService.Exchange
import AsioStudy.SyncService.Network
import AsioStudy.SyncService.Clients
import AsioStudy.AsyncTcpClient.Model
import AsioStudy.AsyncTcpClient.Step
import AsioStudy.AsyncTcpClient.Phase
import AsioStudy.AsyncTcpClient.Locks
import AsioStudy.AsyncTcpClient.Registry
import AsioStudy.AsyncTcpClient.DistinctIds
import AsioStudy.AsyncTcpClient.Completion
import AsioStudy.AsyncTcpClient.Cancellation
import AsioStudy.AsyncTcpClient.Deadlock
import AsioStudy.AsyncTcpClient.Liveness
import AsioStudy.AsyncTcpClient.Responses
import AsioStudy.AsyncTcpClient.Close
import AsioStudy.AsyncTcpClient.Requests
import AsioStudy.MultiClient.Stop
import AsioStudy.ParallelSyncTcpServer.Model
import AsioStudy.AsyncServer.Model
import AsioStudy.AsyncServer.Conservation
import AsioStudy.AsyncServer.Isolation
import AsioStudy.AsyncServer.Liveness
import AsioStudy.AsyncTcpServer.Service
import AsioStudy.AsyncTcpServer.Liveness
import AsioStudy.AsyncTcp.Network
import AsioStudy.AsyncTcp.Requests
import AsioStudy.AsyncTcp.Services
import AsioStudy.AsyncTcp.Exchange
import AsioStudy.AsyncTcp.Liveness
import AsioStudy.AsyncTcp.Cost
import AsioStudy.AsyncTcp.Success
import AsioStudy.HttpClient.Model
import AsioStudy.HttpClient.Parsing
import AsioStudy.HttpClient.HeaderLoop
import AsioStudy.HttpClient.Response
import AsioStudy.HttpClient.StatusLine
import AsioStudy.HttpClient.Exchange
import AsioStudy.HttpClient.Machine
import AsioStudy.HttpClient.Drop
import AsioStudy.HttpClient.Safety
import AsioStudy.HttpClient.Liveness
import AsioStudy.HttpClient.Client
import AsioStudy.HttpClient.Refinement
import AsioStudy.HttpClient.Cancel
import AsioStudy.HttpClient.Reported
import AsioStudy.HttpClient.Segmentation
import AsioStudy.HttpClient.Reuse
import AsioStudy.HttpServer.Model
import AsioStudy.HttpServer.HeaderLoop
import AsioStudy.HttpServer.Request
import AsioStudy.HttpServer.Respond
import AsioStudy.HttpServer.Machine
import AsioStudy.HttpServer.Connections
import AsioStudy.HttpServer.Accepted
import AsioStudy.HttpServer.DocumentRoot
import AsioStudy.HttpServer.Segmentation
import AsioStudy.HttpServer.Liveness
import AsioStudy.HttpServer.Network
import AsioStudy.HttpServer.Answers
import AsioStudy.HttpServer.HeaderMap
import AsioStudy.HttpServer.FileResponse
import AsioStudy.Http.RoundTrip
import AsioStudy.Http.EndToEnd
