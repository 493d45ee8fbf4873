import ReactorNet.Lib.Bytes
import ReactorNet.Lib.Loop
import ReactorNet.Lib.Scan
import ReactorNet.Lib.Stream
import ReactorNet.Lib.Pipe
import ReactorNet.Lib.System
import ReactorNet.Lib.Utf8
import ReactorNet.Lib.Span
import ReactorNet.Lib.Decimal
import ReactorNet.Lib.Heap
import ReactorNet.Lib.Search
import ReactorNet.Lib.StdString
import ReactorNet.Lib.Path
import ReactorNet.Net.Buffer
import ReactorNet.Net.BufferMemory
import ReactorNet.Net.BufferGrowth
import ReactorNet.Net.EventLoop
import ReactorNet.Net.LoopWakeup
import ReactorNet.Net.EventLoopThread
import ReactorNet.Net.Dispatch
import ReactorNet.Net.Poller
import ReactorNet.Net.PollerExact
import ReactorNet.Net.Transport
import ReactorNet.Net.TcpConnection
import ReactorNet.Net.PollerViews
import ReactorNet.Net.Lifecycle
import ReactorNet.Net.SendPath
import ReactorNet.Net.Upcalls
import ReactorNet.Net.Endpoint
import ReactorNet.Net.Service
import ReactorNet.Net.ForceClose
import ReactorNet.Net.Teardown
import ReactorNet.Net.OrderlyShutdown
import ReactorNet.Net.Owners
import ReactorNet.Net.TcpServer
import ReactorNet.Net.TimerQueue
import ReactorNet.Net.TimerOwnership
import ReactorNet.Net.TimerWakeup
import ReactorNet.Net.TimerBatch
import ReactorNet.Net.TimerLoop
import ReactorNet.Net.TimerFate
import ReactorNet.Net.TimerCancel
import ReactorNet.Net.Connector
import ReactorNet.Net.ConnectorAccounting
import ReactorNet.Net.ConnectorAttempts
import ReactorNet.Net.ConnectorCallbacks
import ReactorNet.Rpc.Protocol
import ReactorNet.Rpc.FrameReader
import ReactorNet.Rpc.HeaderMemory
import ReactorNet.Rpc.FrameVerdicts
import ReactorNet.Rpc.Codec
import ReactorNet.Rpc.Envelope
import ReactorNet.Rpc.Registry
import ReactorNet.Rpc.Routing
import ReactorNet.Rpc.Server
import ReactorNet.Rpc.Responses
import ReactorNet.Rpc.Closing
import ReactorNet.Rpc.InputBound
import ReactorNet.Rpc.Verdict
import ReactorNet.Rpc.Client
import ReactorNet.Rpc.RequestIds
import ReactorNet.Rpc.Limits
import ReactorNet.Rpc.Completion
import ReactorNet.Rpc.Attribution
import ReactorNet.Rpc.Ledger
import ReactorNet.Rpc.LateResponse
import ReactorNet.Rpc.ClientTables
import ReactorNet.Rpc.Deadlines
import ReactorNet.Rpc.Destruction
import ReactorNet.Rpc.Callers
import ReactorNet.Rpc.Handover
import ReactorNet.Rpc.Session
import ReactorNet.Rpc.RequestStream
import ReactorNet.Rpc.Cluster
import ReactorNet.Rpc.Linked
import ReactorNet.Rpc.Wired
import ReactorNet.Rpc.Linearizable
import ReactorNet.Rpc.WiredRefines
import ReactorNet.Rpc.CallersLinearizable
import ReactorNet.Rpc.JsonEcho
import ReactorNet.Rpc.Serializer
import ReactorNet.Rpc.SharedClient
import ReactorNet.Rpc.ConnectSound
import ReactorNet.Rpc.ConnectWait
import ReactorNet.Json.Utf8
import ReactorNet.Json.Utf8Exact
import ReactorNet.Json.Value
import ReactorNet.Json.Parser
import ReactorNet.Json.TracedReader
import ReactorNet.Json.Grammar
import ReactorNet.Json.Strings
import ReactorNet.Json.Numbers
import ReactorNet.Json.Acceptance
import ReactorNet.Json.Writer
import ReactorNet.Json.RoundTrip
import ReactorNet.Json.ReaderBounds
import ReactorNet.Json.Canonical
import ReactorNet.Http.Request
import ReactorNet.Http.RequestLine
import ReactorNet.Http.Headers
import ReactorNet.Http.Exceptions
import ReactorNet.Http.DocRoot
import ReactorNet.Http.Response
import ReactorNet.Http.Server
import ReactorNet.Http.Connection
