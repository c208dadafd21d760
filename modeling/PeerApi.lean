import PeerApi.Base.Run
import PeerApi.Base.OrderedMap
import PeerApi.Base.Log
import PeerApi.Base.Transducer
import PeerApi.Base.Backoff
import PeerApi.Common
import PeerApi.Signal.Connection
import PeerApi.Signal.Pending
import PeerApi.Signal.Close
import PeerApi.Signal.Interleaving
import PeerApi.Signal.Opening
import PeerApi.Signal.Reconnect
import PeerApi.Connection.DataChannel
import PeerApi.Connection.PeerControl
import PeerApi.Session.World
import PeerApi.Session.Control
import PeerApi.Session.SignalLoss
import PeerApi.Connection.Effects
import PeerApi.Session.Moves
import PeerApi.Session.Queueing
import PeerApi.Session.Ticks
import PeerApi.Session.Steps
import PeerApi.Session.Serving
import PeerApi.Session.Wired
import PeerApi.Session.Reopen
import PeerApi.Session.Instances
import PeerApi.Session.Registry
import PeerApi.Session.PeerClose
import PeerApi.Session.PeerConnect
import PeerApi.Session.Ownership
import PeerApi.Session.CloseEvents
import PeerApi.Session.CloseRequests
import PeerApi.Session.Inert
import PeerApi.Session.LocalClose
import PeerApi.Session.Window
import PeerApi.Negotiation.Net
import PeerApi.Negotiation.Evolution
import PeerApi.Negotiation.Invariant
import PeerApi.Negotiation.Agreement
import PeerApi.Session.Isolation
import PeerApi.Session.CloseAll
import PeerApi.Session.Refusals
import PeerApi.Session.Offers
import PeerApi.Session.Sending
import PeerApi.Session.FailedOpen
import PeerApi.Session.DeadEntries
import PeerApi.Session.Commute
import PeerApi.Session.Leaving
import PeerApi.Session.Writable
import PeerApi.Session.Relay
import PeerApi.Session.Deeds
import PeerApi.Session.Descriptions
import PeerApi.Session.Inputs
import PeerApi.Negotiation.Delivery
import PeerApi.Session.Upholds
import PeerApi.Session.Lifetimes
import PeerApi.Session.MemorySafety
import PeerApi.Session.Joins
import PeerApi.Audio.Pace
import PeerApi.Base.FirstReturn
import PeerApi.Base.Bytes
import PeerApi.Websocket.Messages
import PeerApi.Websocket.Pair
import PeerApi.Websocket.Limits
import PeerApi.Logging.LogMessage
