import CHttp.Abort
import CHttp.ForMathlib.ByteMemory
import CHttp.ForMathlib.CyclicWindow
import CHttp.ForMathlib.Machine
import CHttp.Runloop.EvfdQueue
import CHttp.Runloop.FunctorList
import CHttp.Async.Descriptors
import CHttp.Common.Cbuffer
import CHttp.Common.BufferChain
import CHttp.Common.Fifo
import CHttp.Common.ChainLaws
import CHttp.Common.ChainHeap
import CHttp.Common.Comparison
import CHttp.Common.CbufferPool
import CHttp.Http.HeaderList
import CHttp.Http.Message
import CHttp.Http.Parser
import CHttp.Http.Decoder
import CHttp.Http.Events
import CHttp.Http.Fragmentation
import CHttp.Http.Stream
import CHttp.Async.Connection
import CHttp.Async.Outcomes
import CHttp.Async.Invariant
import CHttp.Async.Read
import CHttp.Async.Write
import CHttp.Async.Close
import CHttp.Async.Pipelining
import CHttp.Async.Wire
import CHttp.Common.Queue
import CHttp.ForMathlib.Http1
import CHttp.Http.Serialize
import CHttp.Http.Forward
import CHttp.Http.Hops
import CHttp.Runloop.ReactorRun
import CHttp.Runloop.ReactorSteps
import CHttp.Runloop.Dispatch
import CHttp.Runloop.Drain
import CHttp.Sync.Outcomes
import CHttp.Sync.Answers
import CHttp.Sync.Endings
import CHttp.Http.HeaderMap
import CHttp.Http.Limits
import CHttp.Demo.Message
import CHttp.Demo.Parser
import CHttp.Demo.RoundTrip
import CHttp.Demo.Handler
import CHttp.Http.ContentLength
import CHttp.Runloop.TableIterator
import CHttp.Runloop.Registration
import CHttp.Runloop.Timer
import CHttp.Runloop.Stream
import CHttp.Sync.Writes
import CHttp.Sync.Client
import CHttp.Sync.Server
import CHttp.ForMathlib.DoublyLinked
import CHttp.ForMathlib.List
import CHttp.Common.LinkedList
import CHttp.Http.HeaderLookup
import CHttp.ForMathlib.RankedRun
import CHttp.Common.UrlParser
import CHttp.Common.UrlSteps
import CHttp.Common.UrlSpans
import CHttp.Common.UrlOutcome
import CHttp.Common.UrlTexts
import CHttp.Common.UrlParts
import CHttp.Common.UrlLimits
import CHttp.Common.UrlRejected
import CHttp.Common.UrlGrammar
import CHttp.Common.UrlReading
import CHttp.Common.UrlRoundTrip
import CHttp.Common.ListRemoval
import CHttp.Common.ListRuns
import CHttp.Common.ListOwnership
import CHttp.Async.Server
import CHttp.Async.ProcessRequest
import CHttp.Async.EchoServer
import CHttp.Sync.EchoWorker
import CHttp.Sync.VerifyThread
import CHttp.Sync.RoundTrips
import CHttp.Sync.RoundTripsEnd
import CHttp.Sync.Verifier
import CHttp.Async.EchoClients
import CHttp.Demo.Connection
import CHttp.Demo.Scanner
import CHttp.Demo.Recovery
import CHttp.Demo.Session
import CHttp.Demo.SessionRead
import CHttp.Demo.SessionWrite
import CHttp.Demo.SessionInvariant
import CHttp.Demo.Echo
import CHttp.Runloop.FunctorQueue
import CHttp.Runloop.Interval
