import CodeBlocks.Core.Serial
import CodeBlocks.Core.Bytes
import CodeBlocks.Core.Table
import CodeBlocks.Core.Run
import CodeBlocks.Core.Arq
import CodeBlocks.Kcp.Control.Segment
import CodeBlocks.Kcp.Control.State
import CodeBlocks.Kcp.Control.Queue
import CodeBlocks.Kcp.Control.Input
import CodeBlocks.Kcp.Control.Flush
import CodeBlocks.Kcp.Control.Params
import CodeBlocks.Kcp.Invariant.Sides
import CodeBlocks.Kcp.Invariant.Receive
import CodeBlocks.Kcp.Invariant.Config
import CodeBlocks.Kcp.Invariant.Write
import CodeBlocks.Kcp.Invariant.Input
import CodeBlocks.Kcp.Invariant.Intake
import CodeBlocks.Kcp.Invariant.Flush
import CodeBlocks.Kcp.Invariant.Reachable
import CodeBlocks.Kcp.Wire.Packets
import CodeBlocks.Kcp.Wire.Datagrams
import CodeBlocks.Kcp.Session.Session
import CodeBlocks.Kcp.Session.Steps
import CodeBlocks.Kcp.Session.Drain
import CodeBlocks.Kcp.Link.State
import CodeBlocks.Kcp.Link.Receiver
import CodeBlocks.Kcp.Link.Sender
import CodeBlocks.Kcp.Link.Delivery
import CodeBlocks.Kcp.Server.Server
import CodeBlocks.Kcp.Server.Changes
import CodeBlocks.Kcp.Server.Offers
import CodeBlocks.Kcp.Server.Ids
import CodeBlocks.Kcp.Server.TimeWait
import CodeBlocks.Kcp.Server.Resets
import CodeBlocks.Kcp.Client.Client
import CodeBlocks.Kcp.Client.Changes
import CodeBlocks.Kcp.Endpoint.Resets
import CodeBlocks.Kcp.Endpoint.Asserts
import CodeBlocks.Kcp.Client.Reentry
import CodeBlocks.Kcp.Client.State
import CodeBlocks.Kcp.Server.Tables
import CodeBlocks.Kcp.Session.Discipline
import CodeBlocks.Kcp.Session.Reads
import CodeBlocks.Kcp.Session.Messages
import CodeBlocks.Kcp.Session.Survival
import CodeBlocks.Core.Stream
import CodeBlocks.Relay.Request
import CodeBlocks.Relay.Server
import CodeBlocks.Relay.Ledger
import CodeBlocks.Relay.Tunnels
import CodeBlocks.Relay.Segmentation
import CodeBlocks.Ai2048.Board
import CodeBlocks.Ai2048.Eval
import CodeBlocks.Ai2048.Search
import CodeBlocks.Ai2048.Play
import CodeBlocks.Kcp.Invariant.Tally
import CodeBlocks.Kcp.Session.Completion
import CodeBlocks.Ai2048.Minimax
import CodeBlocks.Ai2048.Slide
import CodeBlocks.Kcp.Session.Waiting
import CodeBlocks.Kcp.Session.Moments
import CodeBlocks.Kcp.Session.WriteChecks
import CodeBlocks.Kcp.Client.Silence
import CodeBlocks.Kcp.Invariant.Fragments
import CodeBlocks.Kcp.Session.Timers
import CodeBlocks.Relay.Grammar
import CodeBlocks.Core.Flood
import CodeBlocks.Ai2048.Lands
import CodeBlocks.Ai2048.Smoothness
import CodeBlocks.Ai2048.Placements
import CodeBlocks.Core.Grid
import CodeBlocks.Ai2048.Views
import CodeBlocks.Ai2048.Candidates
import CodeBlocks.Kcp.Control.Sizing
import CodeBlocks.Kcp.Wire.Headers
import CodeBlocks.Ai2048.LandCount
import CodeBlocks.Common.StringUtils
import CodeBlocks.Kcp.Wire.AckFlush
import CodeBlocks.Kcp.Socket.UdpSocket
import CodeBlocks.Kcp.Client.Pings
import CodeBlocks.Ai2048.Monotonicity
import CodeBlocks.Ai2048.Symmetry
import CodeBlocks.Kcp.Server.Transmit
import CodeBlocks.Kcp.Session.HighWater
import CodeBlocks.Common.Trim
import CodeBlocks.Core.Framing
import CodeBlocks.Core.Varint
import CodeBlocks.Ai2048.Messages
import CodeBlocks.Ai2048.Codec
import CodeBlocks.Ai2048.Network
import CodeBlocks.Ai2048.Refinement
import CodeBlocks.Ai2048.Runs
import CodeBlocks.Kcp.Session.Peers
import CodeBlocks.Kcp.Network.State
import CodeBlocks.Kcp.Network.ClientEnd
import CodeBlocks.Kcp.Network.ServerEnd
import CodeBlocks.Kcp.Network.Agreement
import CodeBlocks.Kcp.Link.Feed
import CodeBlocks.Kcp.Link.Window
import CodeBlocks.Kcp.Link.History
import CodeBlocks.Kcp.Link.Recovery
import CodeBlocks.Kcp.Link.Release
