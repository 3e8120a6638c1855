import Curlinho.Foundation.OrderedMap
import Curlinho.Foundation.MapRun
import Curlinho.Foundation.LexicographicalCompare
import Curlinho.Foundation.CallLog
import Curlinho.Foundation.Delimited
import Curlinho.Foundation.LastWrite
import Curlinho.Foundation.Ledger
import Curlinho.Foundation.FirstStop
import Curlinho.Foundation.SharedHeap
import Curlinho.Foundation.Commuting
import Curlinho.Foundation.MapEntries
import Curlinho.Util.Bytes
import Curlinho.Util.UrlEncode
import Curlinho.Util.Parameters
import Curlinho.Util.QueryText
import Curlinho.Util.Headers
import Curlinho.Util.HeaderOrder
import Curlinho.Util.CharacterClass
import Curlinho.Util.ParseHeaders
import Curlinho.Util.StatusLine
import Curlinho.Util.HeaderRange
import Curlinho.Util.Split
import Curlinho.Session.Types
import Curlinho.Session.Handle
import Curlinho.Session.Session
import Curlinho.Session.Transfer
import Curlinho.Session.Run
import Curlinho.Session.HeaderList
import Curlinho.Session.HeaderWire
import Curlinho.Session.RequestUrl
import Curlinho.Session.Settings
import Curlinho.Session.History
import Curlinho.Session.Responses
import Curlinho.Session.Isolation
import Curlinho.Session.NullHandle
import Curlinho.Session.BodyOwnership
import Curlinho.Session.Life
import Curlinho.Session.ListOwnership
import Curlinho.Session.HeaderInjection
import Curlinho.Session.Balance
import Curlinho.Session.Borrowed
import Curlinho.Session.Told
import Curlinho.Session.HeaderAlgebra
import Curlinho.Session.Remembered
import Curlinho.Session.Relay
import Curlinho.Session.HeadersRead
import Curlinho.Calls.Frame
import Curlinho.Calls.RetryLoop
import Curlinho.Calls.Backoff
import Curlinho.Calls.Calls
import Curlinho.Calls.RepeatedCalls
import Curlinho.Calls.Async
import Curlinho.Calls.Threads
import Curlinho.Calls.OwnFrames
import Curlinho.Calls.Alone
import Curlinho.Calls.Concurrency
import Curlinho.Calls.Agreement
import Curlinho.Calls.Programs
import Curlinho.Calls.Readings
import Curlinho.Calls.Lives
