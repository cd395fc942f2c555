import Bcmd.Lib.Rely
import Bcmd.Lib.Keyed
import Bcmd.Domain
import Bcmd.Persistence
import Bcmd.Publisher
import Bcmd.Port
import Bcmd.UseCase
import Bcmd.Service
import Bcmd.LostUpdate
import Bcmd.Removal
import Bcmd.Sequential
import Bcmd.Agreement
import Bcmd.Expiry
import Bcmd.Streams
import Bcmd.Sections
import Bcmd.DeadStream
import Bcmd.Lib.Window
import Bcmd.Paging
import Bcmd.MessageOrder
import Bcmd.Backfill
import Bcmd.ChannelsStore
import Bcmd.ListView
import Bcmd.Refusal
import Bcmd.Routing
import Bcmd.LiveOnly
import Bcmd.NameIndex
import Bcmd.OverlappingJoins
import Bcmd.Lib.Owes
import Bcmd.ListSections
import Bcmd.ListStreams
import Bcmd.ListNames
import Bcmd.CatchUp
import Bcmd.ListSnapshot
import Bcmd.CountEvents
import Bcmd.UseChannelMessages
import Bcmd.LiveMessages
import Bcmd.MessageSource
import Bcmd.FirstVisit
import Bcmd.Registry
import Bcmd.Requests
import Bcmd.JoinByName
import Bcmd.Lib.Replay
import Bcmd.MemberEvents
import Bcmd.Operations
import Bcmd.Sweep
import Bcmd.StoredMessages
import Bcmd.Switching
import Bcmd.Lib.Locks
import Bcmd.Locking
import Bcmd.LockOrder
import Bcmd.WriteOverlap
import Bcmd.Lib.Serial
import Bcmd.CriticalSections
import Bcmd.HeartbeatSweeper
import Bcmd.Lib.Monitor
import Bcmd.Delivery
import Bcmd.NameRaces
import Bcmd.Subscription
import Bcmd.LiveTerminal
import Bcmd.Lib.TwoRuns
import Bcmd.Invisible
import Bcmd.Published
import Bcmd.JoinOutcome
import Bcmd.JoinBodies
import Bcmd.SendOnce
import Bcmd.MessageLog
import Bcmd.Commute
import Bcmd.ShownOrder
import Bcmd.CommandParser
import Bcmd.MessageView
import Bcmd.FtxuiPresenter
import Bcmd.ServerGateway
import Bcmd.InputRouting
import Bcmd.MessagePane
import Bcmd.ClientSession
import Bcmd.ActiveChannel
import Bcmd.WebForms
import Bcmd.FormSoundness
import Bcmd.CommandGrammar
import Bcmd.ScrollWindow
import Bcmd.ReadingBack
import Bcmd.Lib.Refines
import Bcmd.Lib.Chat
import Bcmd.Rooms
import Bcmd.RoomsRefined
import Bcmd.Answers
import Bcmd.Ledger
import Bcmd.Sidebar
import Bcmd.LiveSidebar
