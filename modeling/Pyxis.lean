import Pyxis.Shared.Runs
import Pyxis.Shared.OrderedMap
import Pyxis.Shared.Prefixes
import Pyxis.Shared.Batches
import Pyxis.Shared.Double
import Pyxis.Shared.Condition
import Pyxis.Base.Channel
import Pyxis.Base.Selector
import Pyxis.Common.Status
import Pyxis.Store.Path
import Pyxis.Store.Node
import Pyxis.Store.Tree
import Pyxis.Store.Closure
import Pyxis.Store.Persist
import Pyxis.Store.Refinement
import Pyxis.Store.Calls
import Pyxis.Store.Children
import Pyxis.Store.Versions
import Pyxis.Store.Size
import Pyxis.Store.Keys
import Pyxis.Store.Walk
import Pyxis.Store.Content
import Pyxis.Store.Snapshot
import Pyxis.Store.Bytes
import Pyxis.Store.Proc
import Pyxis.Store.Namespace
import Pyxis.Server.Message
import Pyxis.Server.Watch
import Pyxis.Server.Session
import Pyxis.Server.SessionFrame
import Pyxis.Server.Rounding
import Pyxis.Server.Machine
import Pyxis.Server.Timers
import Pyxis.Server.Buckets
import Pyxis.Server.Issue
import Pyxis.Server.Quiet
import Pyxis.Server.Moves
import Pyxis.Server.Server
import Pyxis.Server.Loop
import Pyxis.Server.Advance
import Pyxis.Server.Turn
import Pyxis.Replica.Replica
import Pyxis.Replica.Refinement
import Pyxis.Replica.Reload
import Pyxis.Replica.Steps
import Pyxis.Replica.Close
import Pyxis.Replica.Ownership
import Pyxis.Replica.Poison
import Pyxis.Replica.Restart
import Pyxis.Replica.Recovery
import Pyxis.Server.Execute
import Pyxis.Replica.Effects
import Pyxis.Replica.Reach
import Pyxis.Replica.Records
import Pyxis.Server.Pairing
import Pyxis.Server.Barrier
import Pyxis.Server.Closing
import Pyxis.Server.WatchTables
import Pyxis.Server.Notifications
import Pyxis.Server.Fates
import Pyxis.Replica.Answers
import Pyxis.Replica.Replies
import Pyxis.Server.Delivery
import Pyxis.Server.Triger
import Pyxis.Server.Expiry
import Pyxis.Server.Pings
import Pyxis.Server.Lapse
import Pyxis.Server.SessionClock
import Pyxis.Cluster.Sids
import Pyxis.Cluster.Timeouts
import Pyxis.Cluster.Agreement
import Pyxis.Cluster.Freshness
import Pyxis.Client.Rpc
import Pyxis.Rpc.Service
import Pyxis.Client.Read
import Pyxis.Client.Copy
import Pyxis.Client.Connection
import Pyxis.Client.Driven
import Pyxis.Client.Registration
import Pyxis.Client.Rewatch
