import PoxChat.Lib.Table
import PoxChat.Lib.Program
import PoxChat.Vfs.Outer
import PoxChat.Vfs.File
import PoxChat.Vfs.PageStore
import PoxChat.Vfs.Geometry
import PoxChat.Vfs.Commit
import PoxChat.Vfs.Recovery
import PoxChat.Vfs.Refine
import PoxChat.Lib.Ranked
import PoxChat.Scrollback.Store
import PoxChat.Scrollback.Tables
import PoxChat.Scrollback.Ordinals
import PoxChat.Scrollback.SearchIndex
import PoxChat.Scrollback.Ledger
import PoxChat.Scrollback.Gaps
import PoxChat.ChatHistory.Catchup
import PoxChat.ChatHistory.Batches
import PoxChat.ChatHistory.Delivery
import PoxChat.ChatHistory.Queue
import PoxChat.ChatHistory.Slots
import PoxChat.ChatHistory.InFlight
import PoxChat.ChatHistory.Replay
import PoxChat.ChatHistory.GapFill
import PoxChat.ChatHistory.DeadGaps
import PoxChat.Outbound.SendQueue
import PoxChat.Outbound.TypedOrder
import PoxChat.Outbound.Say
import PoxChat.Outbound.Multiline
import PoxChat.ChatHistory.Identity
import PoxChat.Outbound.OwnMessages
import PoxChat.ChatHistory.GapOwners
import PoxChat.ChatHistory.Reconnect
import PoxChat.ChatHistory.DeferredTargets
import PoxChat.ChatHistory.Persistence
import PoxChat.ChatHistory.CatchupEnds
import PoxChat.ChatHistory.Disconnect
import PoxChat.Lib.Bisect
import PoxChat.Users.Tree
import PoxChat.Users.Userlist
import PoxChat.Users.Lookup
import PoxChat.Cap.Negotiation
import PoxChat.Cap.Exchange
import PoxChat.Cap.Transport
import PoxChat.Inbound.Batches
import PoxChat.Inbound.Nesting
import PoxChat.Inbound.Msgids
import PoxChat.ChatHistory.ChunkControl
import PoxChat.Vfs.Autocommit
import PoxChat.Inbound.Reading
import PoxChat.Scrollback.Transactions
import PoxChat.Inbound.Lines
import PoxChat.Inbound.Multiline
import PoxChat.Inbound.Replies
import PoxChat.Cap.SaslFraming
import PoxChat.Users.Counts
import PoxChat.Modes.Live
import PoxChat.Modes.Replay
import PoxChat.Lib.LineBuffer
import PoxChat.Servlist.Networks
import PoxChat.Servlist.Restart
import PoxChat.Inbound.Flood
import PoxChat.Urls.Grabber
import PoxChat.Servlist.Sts
import PoxChat.Servlist.StsRuns
import PoxChat.Chanopt.Options
import PoxChat.Chanopt.File
import PoxChat.Chanopt.Runs
import PoxChat.Config.Preferences
import PoxChat.Config.Survival
import PoxChat.Xtext.Entries
import PoxChat.Fishlim.Cipher
import PoxChat.Lib.Utf8
import PoxChat.Fishlim.Messages
import PoxChat.Fishlim.Dh1080
import PoxChat.Lib.Links
import PoxChat.Xtext.Buffer
import PoxChat.Xtext.Shown
import PoxChat.Xtext.Order
import PoxChat.Xtext.Window
import PoxChat.Lib.Runs
import PoxChat.Scrollback.Bootstrap
import PoxChat.ChatHistory.Narrowing
import PoxChat.Outbound.Pieces
import PoxChat.Outbound.BatchLimits
import PoxChat.Lib.Glob
import PoxChat.Text.Match
import PoxChat.Text.Alerts
import PoxChat.Text.Events
import PoxChat.Text.EventBuffer
import PoxChat.Outbound.AutoInsert
import PoxChat.Inbound.Tags
import PoxChat.Outbound.JoinList
import PoxChat.Modes.Mass
import PoxChat.Modes.Record
import PoxChat.Lib.Segments
import PoxChat.Inbound.Framing
import PoxChat.Outbound.SentBlocks
import PoxChat.Lib.Fields
import PoxChat.Outbound.Words
import PoxChat.Scrollback.Anchors
import PoxChat.Lib.Cells
import PoxChat.Users.TreeArray
import PoxChat.Users.Overflow
import PoxChat.Users.FiniteMap
import PoxChat.Transfers.Transfer
import PoxChat.Transfers.Received
import PoxChat.Transfers.Acks
import PoxChat.Transfers.Progress
import PoxChat.Lib.Ring
import PoxChat.Outbound.History
import PoxChat.Cap.Scram
import PoxChat.Lib.Walk
import PoxChat.Plugins.Hooks
import PoxChat.Plugins.Emission
import PoxChat.Tls.Hostname
import PoxChat.Ignores.Policy
