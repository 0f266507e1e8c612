import Revquic.Lib.Machine
import Revquic.Lib.GoMap
import Revquic.Lib.Ledger
import Revquic.Lib.Fifo
import Revquic.Lib.Cycle
import Revquic.Lib.Rounds
import Revquic.Lib.Block
import Revquic.Lib.Reader
import Revquic.Lib.Reading
import Revquic.Lib.BigEndian
import Revquic.Lib.Base64
import Revquic.Lib.Persistent
import Revquic.Lib.Utf8
import Revquic.Lib.Lines
import Revquic.Lib.Recent
import Revquic.Netip
import Revquic.Ippool
import Revquic.Lb
import Revquic.Lb.Optimum
import Revquic.Userstore
import Revquic.Qos
import Revquic.Proto
import Revquic.Broker.State
import Revquic.Broker.Handlers
import Revquic.Broker.Step
import Revquic.Broker.Stepped
import Revquic.Broker.Moves
import Revquic.Broker.Rep
import Revquic.Broker.Address
import Revquic.Broker.Relay
import Revquic.Broker.Registry
import Revquic.Broker.Exits
import Revquic.Broker.Messages
import Revquic.Broker.Attach
import Revquic.Broker.Load
import Revquic.Broker.Capacity
import Revquic.Broker.Region
import Revquic.Broker.Ownership
import Revquic.Broker.Duties
import Revquic.Exit.Tables
import Revquic.Exit.Step
import Revquic.Exit.Inbound
import Revquic.Exit.Paths
import Revquic.Exit.Sampler
import Revquic.Link.Step
import Revquic.Link.Told
import Revquic.Link.Agree
import Revquic.Link.Routes
import Revquic.Qos.Load
import Revquic.Datapath
import Revquic.Datapath.Migrate
import Revquic.Datapath.Limit
import Revquic.Client
import Revquic.Link.Transparent
import Revquic.Broker.Rest
import Revquic.Broker.Books
import Revquic.Broker.Tracker
import Revquic.Broker.Control
import Revquic.Broker.Window
import Revquic.Broker.Loss
import Revquic.Broker.Sole
import Revquic.Broker.Posts
import Revquic.Broker.Choice
import Revquic.Feed.Shows
import Revquic.Lib.TextDecoder
import Revquic.Feed.Stream
import Revquic.Ippool.Cyclic
import Revquic.Ippool.Bound
import Revquic.Proto.Framing
import Revquic.Qos.Steady
import Revquic.Qos.Bytes
import Revquic.Lib.Hysteresis
import Revquic.Qos.Speed
import Revquic.Telemetry
import Revquic.Userstore.Table
import Revquic.Userstore.Answers
import Revquic.Userstore.File
import Revquic.Userstore.Sqlite
import Revquic.Adminstore
import Revquic.Pwhash
import Revquic.Oidc
import Revquic.Socks
import Revquic.Socks.Splice
import Revquic.Lib.Chain
import Revquic.Netcfg
import Revquic.Client.Tun
import Revquic.Lib.Trim
import Revquic.Conf
import Revquic.Qos.History
import Revquic.Lib.Literal
import Revquic.Lib.Json
import Revquic.Qos.Raised
import Revquic.Qos.Encoding
import Revquic.Proto.Encoding
import Revquic.Broker.Driven
import Revquic.Broker.Archive
import Revquic.Qos.Restart
import Revquic.Link.Answer
import Revquic.Lib.JsonTree
import Revquic.Ice
import Revquic.Ice.Negotiate
import Revquic.Ice.Network
import Revquic.Ice.Origin
import Revquic.Adminserver
import Revquic.Adminserver.Access
import Revquic.Adminserver.Admission
import Revquic.Lib.Group
import Revquic.Adminserver.Regions
import Revquic.Broker.Admission
import Revquic.Oidc.Verify
import Revquic.Oidc.Login
import Revquic.Oidc.Rotation
import Revquic.Service
import Revquic.Broker.Refines
import Revquic.Lib.RouteTable
import Revquic.Client.Supervisor
import Revquic.Client.Cleanup
import Revquic.Ippool.Reuse
import Revquic.Broker.Reuse
import Revquic.Datapath.Greedy
