import Rapp.Lib.Outcome
import Rapp.Lib.Handles
import Rapp.Lib.Loop
import Rapp.Lib.Slice
import Rapp.Lib.Ledger
import Rapp.Lib.Heap
import Rapp.Lib.Framing
import Rapp.Lib.Components
import Rapp.Lib.Books
import Rapp.HttpRequest
import Rapp.HttpParser
import Rapp.HttpRequestQueue
import Rapp.QueueRun
import Rapp.QueueOrder
import Rapp.StreamAlignment
import Rapp.HeaderSplit
import Rapp.HeaderAgreement
import Rapp.HeaderTable
import Rapp.BodyReassembly
import Rapp.HttpResponse
import Rapp.HttpConnection
import Rapp.ResponseDelivery
import Rapp.TruncatedClose
import Rapp.RequestCap
import Rapp.RequestOwnership
import Rapp.EventLoop
import Rapp.Dispatch
import Rapp.Collector
import Rapp.Config
import Rapp.ConfigCalls
import Rapp.ConfigYaml
import Rapp.YamlDocument
import Rapp.YamlMeaning
import Rapp.SkipSection
import Rapp.ValueTexts
import Rapp.ExternalNames
import Rapp.YamlTermination
import Rapp.HttpRouter
import Rapp.Routing
import Rapp.RequestAnswers
import Rapp.OptionTypes
import Rapp.OptionRange
import Rapp.OptionNames
import Rapp.OptionStore
import Rapp.ResponseWriters
import Rapp.ResponseFifo
import Rapp.WatchRegistry
import Rapp.HttpServer
import Rapp.ServerWatches
import Rapp.DestructionRecord
import Rapp.DeferredDestruction
import Rapp.YamlMentions
import Rapp.YamlDelivered
import Rapp.YamlStyles
import Rapp.AcceptedTexts
import Rapp.ConfigCommandline
import Rapp.ConfigEnv
import Rapp.OneList
import Rapp.FlagValues
import Rapp.Precedence
import Rapp.ResponseFailures
import Rapp.WriterAtomicity
import Rapp.FailedWatch
import Rapp.WatchAnswers
import Rapp.AcceptedSocket
import Rapp.AcceptOwnership
import Rapp.BindFailures
import Rapp.SignalHandler
import Rapp.FilledTable
import Rapp.TableLayout
import Rapp.ResponseMessage
import Rapp.ResponseStream
import Rapp.HeaderLookup
import Rapp.YamlFrame
import Rapp.ConfigFiles
import Rapp.Startup
import Rapp.ServerIsolation
import Rapp.ServerLedger
import Rapp.BatchProgress
import Rapp.PluginLoader
import Rapp.TcpListener
import Rapp.Logging
import Rapp.Shutdown
