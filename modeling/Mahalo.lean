import Mahalo.Lib.Mpsc
import Mahalo.Lib.Keyed
import Mahalo.Lib.Hub
import Mahalo.Presence
import Mahalo.Proofs.Presence.Lists
import Mahalo.Proofs.Presence.Diffs
import Mahalo.Lib.Lts
import Mahalo.Lib.Segments
import Mahalo.Lib.Utf8
import Mahalo.Lib.Base64
import Mahalo.Lib.Percent
import Mahalo.Lib.FieldLists
import Mahalo.Proofs.Core.QueryParams
import Mahalo.Lib.Framing
import Mahalo.Lib.Prog
import Mahalo.Lib.Patterns
import Mahalo.Lib.Brackets
import Mahalo.Lib.Lines
import Mahalo.Lib.EarlyExit
import Mahalo.Lib.RustStd
import Mahalo.Core.Conn
import Mahalo.Core.Plug
import Mahalo.Router.Router
import Mahalo.Proofs.PubSub
import Mahalo.Proofs.Router.Pipelines
import Mahalo.Proofs.Router.Paths
import Mahalo.Proofs.Router.Matchit
import Mahalo.Proofs.Router.Compile
import Mahalo.Proofs.Router.Reverse
import Mahalo.Proofs.Router.Resolution
import Mahalo.Proofs.Channel.Socket
import Mahalo.Proofs.Channel.Connection
import Mahalo.Proofs.Channel.Window
import Mahalo.Proofs.Channel.Subscription
import Mahalo.Proofs.Channel.Delivery
import Mahalo.Proofs.Channel.Handlers
import Mahalo.Proofs.Channel.Lifecycle
import Mahalo.Proofs.Channel.Replies
import Mahalo.Endpoint.HttpParse
import Mahalo.Endpoint.HttpSerialize
import Mahalo.Endpoint.Handler
import Mahalo.Endpoint.Server
import Mahalo.Endpoint.WsParse
import Mahalo.Endpoint.WsStreaming
import Mahalo.Endpoint.WsWire
import Mahalo.Endpoint.WsConnection
import Mahalo.Proofs.Endpoint.HttpParse
import Mahalo.Proofs.Endpoint.HttpSerialize
import Mahalo.Endpoint.HttpRaw
import Mahalo.Proofs.Endpoint.HttpRaw
import Mahalo.Proofs.Endpoint.Handshake
import Mahalo.Proofs.Endpoint.KeepAlive
import Mahalo.Proofs.Endpoint.Progress
import Mahalo.Proofs.Endpoint.Recycling
import Mahalo.Proofs.Endpoint.Stream
import Mahalo.Proofs.Endpoint.Handler
import Mahalo.Proofs.Endpoint.Server
import Mahalo.Proofs.Endpoint.Accum
import Mahalo.Proofs.Endpoint.Upgrade
import Mahalo.Proofs.Endpoint.WsParse
import Mahalo.Proofs.Endpoint.WsFrames
import Mahalo.Proofs.Endpoint.WsStreaming
import Mahalo.Proofs.Endpoint.WsLimit
import Mahalo.Proofs.Endpoint.WsMessages
import Mahalo.Proofs.Endpoint.WsSerialize
import Mahalo.Proofs.Endpoint.WsWire
import Mahalo.Proofs.Endpoint.WsConnection
import Mahalo.Proofs.Endpoint.WsClose
import Mahalo.Lib.Roster
import Mahalo.Lib.EventStream
import Mahalo.Lib.FileTree
import Mahalo.Plug.StaticFiles
import Mahalo.Proofs.Plug.StaticFiles
import Mahalo.Plug.Csrf
import Mahalo.Proofs.Plug.Csrf
import Mahalo.Sse
import Mahalo.Proofs.Sse
import Mahalo.Cluster
import Mahalo.Proofs.Cluster
import Mahalo.Bridge
import Mahalo.Proofs.Bridge.Calls
import Mahalo.Proofs.Bridge.Delivery
import Mahalo.Proofs.Endpoint.Query
import Mahalo.Proofs.Endpoint.BadFraming
import Mahalo.Proofs.Endpoint.Bodyless
import Mahalo.Lib.RefCell
import Mahalo.Lib.EntityTags
import Mahalo.Plug.ETag
import Mahalo.Proofs.Plug.Reading
import Mahalo.Proofs.Plug.Reachable
import Mahalo.Proofs.Plug.Codings
import Mahalo.Proofs.Plug.Head
import Mahalo.Proofs.Plug.Conditional
import Mahalo.Telemetry
import Mahalo.Proofs.Telemetry
import Mahalo.Topology
import Mahalo.Proofs.Topology
import Mahalo.Proofs.Channel.Timers
import Mahalo.Proofs.Channel.SendEvent
import Mahalo.Lib.LetterCase
import Mahalo.Lib.Occurrences
import Mahalo.Proofs.Router.Leaks
import Mahalo.Cargo.Generate
import Mahalo.Proofs.Cargo.Names
import Mahalo.Proofs.Cargo.RouteLine
import Mahalo.Proofs.Cargo.Lines
import Mahalo.Proofs.Cargo.Edits
import Mahalo.Proofs.Cargo.Accumulate
import Mahalo.Lib.TextLines
import Mahalo.Cargo.New
import Mahalo.Proofs.Cargo.Registry
import Mahalo.Proofs.Cargo.Generators
import Mahalo.Endpoint.SseStreaming
import Mahalo.Proofs.Endpoint.SseStreaming
import Mahalo.Lib.Table
import Mahalo.Lib.Mutex
import Mahalo.TestApp.Store
import Mahalo.TestApp.Channels
import Mahalo.TestApp.App
import Mahalo.TestApp.Prices
import Mahalo.Proofs.TestApp.Store
import Mahalo.Proofs.TestApp.Runs
import Mahalo.Proofs.TestApp.Orders
import Mahalo.Proofs.TestApp.Prices
import Mahalo.Lib.Revalidation
import Mahalo.Proofs.Endpoint.Conversation
import Mahalo.Proofs.Endpoint.WsSession
import Mahalo.Proofs.Plug.Caching
import Mahalo.Proofs.Router.Gates
import Mahalo.Proofs.TestApp.Router
import Mahalo.Proofs.Endpoint.WsTasks
import Mahalo.TestApp.Router
