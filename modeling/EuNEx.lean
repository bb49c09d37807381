import EuNEx.Book.Run
import EuNEx.Book.Crossing
import EuNEx.Book.History
import EuNEx.Book.Reports
import EuNEx.Book.Phases
import EuNEx.Book.Positive
import EuNEx.Book.Flat
import EuNEx.Actors.Sessions
import EuNEx.Actors.Exchange
import EuNEx.Ledger.Laws
import EuNEx.Actors.Holdings
import EuNEx.Actors.Gateway
import EuNEx.Actors.Threads
import EuNEx.Dashboard.Agreement
import EuNEx.Actors.SessionIds
import EuNEx.Actors.Logon
import EuNEx.Actors.ClOrdIds
import EuNEx.FIX.RoundTrip
import EuNEx.Dashboard.Requests
import EuNEx.Dashboard.Uncrossed
import EuNEx.Dashboard.Executed
import EuNEx.Dashboard.Bridge
import EuNEx.Dashboard.Ownership
import EuNEx.Dashboard.OneEngine
import EuNEx.Engine.SimplxShim
import EuNEx.Engine.Life
import EuNEx.Book.Informed
import EuNEx.FIX.Sent
import EuNEx.Dashboard.FIXBridge
import EuNEx.Dashboard.Mirror
import EuNEx.Iaca.Aggregator
import EuNEx.Iaca.Chains
import EuNEx.Lib.Bytes
import EuNEx.Recovery.RecoveryProxy
import EuNEx.Recovery.Effects
import EuNEx.Recovery.Log
import EuNEx.Recovery.KafkaStore
import EuNEx.Lib.Table
import EuNEx.Dashboard.Database
import EuNEx.Dashboard.Restarts
import EuNEx.Clearing.Database
import EuNEx.Dashboard.Submitted
import EuNEx.Dashboard.OnEntry
import EuNEx.Dashboard.FIXSession
import EuNEx.Dashboard.TrueReports
import EuNEx.Clearing.Trading
import EuNEx.FIX.Chunks
import EuNEx.Book.Cancel
import EuNEx.Lib.Greedy
import EuNEx.Book.Priority
import EuNEx.Lib.CallAuction
import EuNEx.Book.Opening
import EuNEx.Book.Uncross
import EuNEx.Book.Totals
import EuNEx.Book.Amend
import EuNEx.Actors.Isolation
import EuNEx.Recovery.Messages
import EuNEx.FIX.Headers
import EuNEx.FIX.Fields
import EuNEx.Actors.Decoding
import EuNEx.Actors.AITrader
import EuNEx.Lib.Random
import EuNEx.Clearing.Strategies
import EuNEx.Book.DayLimits
import EuNEx.Lib.Window
import EuNEx.Actors.Program
import EuNEx.Actors.Market
import EuNEx.Lib.Candle
import EuNEx.Dashboard.Charts
import EuNEx.Clearing.Equity
import EuNEx.Actors.Shutdown
import EuNEx.Lib.Tickets
import EuNEx.Dashboard.RenameId
import EuNEx.Dashboard.EngineThreads
import EuNEx.Clearing.Desks
import EuNEx.Dashboard.Stream
import EuNEx.Clearing.Control
import EuNEx.Clearing.Exclusion
