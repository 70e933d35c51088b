import Kiyomi.Foundation.Run
import Kiyomi.Foundation.ParentTable
import Kiyomi.Go.Time
import Kiyomi.Queue.Job
import Kiyomi.Queue.Sqlite.Database
import Kiyomi.Queue.Sqlite.Store
import Kiyomi.Queue.Sqlite.Worker
import Kiyomi.Queue.Sqlite.System
import Kiyomi.Queue.Sqlite.AtMostOnce
import Kiyomi.Queue.Sqlite.Cancellation
import Kiyomi.Queue.Sqlite.Accounting
import Kiyomi.Queue.Sqlite.Restart
import Kiyomi.Go.Strings
import Kiyomi.Queue.InMemory.Store
import Kiyomi.Queue.InMemory.Driver
import Kiyomi.Queue.InMemory.Worker
import Kiyomi.Foundation.StableSort
import Kiyomi.Queue.Contents
import Kiyomi.Api.JobHandler
import Kiyomi.Queue.Sqlite.Cleanup
import Kiyomi.Library.Bindings
import Kiyomi.Library.BindingWriters
import Kiyomi.Library.ChapterProgress
import Kiyomi.Api.ConcernHandler
import Kiyomi.Foundation.FileTree
import Kiyomi.Go.Filepath
import Kiyomi.Library.Files
import Kiyomi.Queue.PullManga
import Kiyomi.Queue.PullCompleteness
import Kiyomi.Api.MergeHandler
import Kiyomi.Library.MergeMoves
import Kiyomi.Api.MergeLossless
import Kiyomi.Queue.Equivalence
import Kiyomi.Queue.Machinery.Driver
import Kiyomi.Queue.Machinery.Tracking
import Kiyomi.PluginSdk.Transport
import Kiyomi.Web.ReaderProgress
import Kiyomi.Foundation.FileProgram
import Kiyomi.Library.Effects
import Kiyomi.Queue.PullFiles
import Kiyomi.Queue.Deletion
import Kiyomi.Library.MergeEffects
import Kiyomi.Api.MergeFaults
import Kiyomi.Go.Map
import Kiyomi.Provider.Registry
import Kiyomi.Provider.Routing
import Kiyomi.Plugin.Host.Manager
import Kiyomi.Plugin.Host.Reload
import Kiyomi.Plugin.Host.System
import Kiyomi.Plugin.Host.Processes
import Kiyomi.Plugin.Host.Calls
import Kiyomi.Plugin.Messages
import Kiyomi.Plugin.Server
import Kiyomi.Plugin.Boundary
import Kiyomi.Go.Http
import Kiyomi.Go.NetIP
import Kiyomi.Security.Ssrfguard
import Kiyomi.Security.ImageFetches
import Kiyomi.Security.Redirects
import Kiyomi.Api.PageProxy
import Kiyomi.Queue.PagePulls
import Kiyomi.Queue.PageJobs
import Kiyomi.Api.PulledPages
import Kiyomi.Queue.FanOut
import Kiyomi.Queue.FanOutOnce
import Kiyomi.Go.Glob
import Kiyomi.Library.ChapterFiles
import Kiyomi.Api.ChapterHandlers
import Kiyomi.Api.ProviderIsolation
import Kiyomi.Library.BindingSections
import Kiyomi.Library.ValidBindings
import Kiyomi.Api.BindingsInvariant
import Kiyomi.Library.Manifests
import Kiyomi.Library.Provenance
import Kiyomi.Queue.PullManifests
import Kiyomi.Api.ChapterProvenance
import Kiyomi.Cache.DiskCache
import Kiyomi.Cache.Consistency
import Kiyomi.Queue.InMemory.Cancellation
import Kiyomi.Queue.InMemory.Retries
import Kiyomi.Queue.Sqlite.Retries
import Kiyomi.Queue.Retries
import Kiyomi.Foundation.Admission
import Kiyomi.Queue.Sqlite.Dispatch
import Kiyomi.Queue.ParentGraphs
import Kiyomi.Queue.InMemory.Cleanup
import Kiyomi.Queue.InMemory.Listing
import Kiyomi.Api.RemoteAddress
import Kiyomi.Queue.PullFixpoint
import Kiyomi.Library.Replacements
import Kiyomi.Queue.ImageDownloads
import Kiyomi.Queue.ChapterDeletion
import Kiyomi.Queue.DownloadedFlag
import Kiyomi.Library.MangaReads
import Kiyomi.Api.BatchProgress
import Kiyomi.Library.ContentSources
import Kiyomi.Foundation.Unions
import Kiyomi.Api.MergeOrders
import Kiyomi.Provider.Winners
import Kiyomi.Foundation.SemanticVersion
import Kiyomi.Plugin.Host.Compatibility
import Kiyomi.Plugin.Host.VersionOrders
import Kiyomi.Plugin.Host.Configuration
import Kiyomi.Cache.FetchContexts
import Kiyomi.Cache.Purging
import Kiyomi.Foundation.TimedMap
import Kiyomi.PluginSdk.Cache
import Kiyomi.PluginSdk.TimedCache
import Kiyomi.PluginSdk.GetOrSet
import Kiyomi.Go.LexicalPath
import Kiyomi.Library.Containment
import Kiyomi.Library.PathNesting
import Kiyomi.Library.Covers
import Kiyomi.Queue.CoverWrites
import Kiyomi.Library.SaveFrames
import Kiyomi.Api.ProviderImport
import Kiyomi.Plugin.Host.ConfigIsolation
import Kiyomi.Plugin.Host.Capabilities
import Kiyomi.Foundation.Lines
import Kiyomi.Go.Bytes
import Kiyomi.Plugin.Host.Interceptor
import Kiyomi.Plugin.Host.LogStreams
import Kiyomi.Plugin.Host.PageStreams
import Kiyomi.Foundation.Occurrences
import Kiyomi.ProviderSdk.Errors
import Kiyomi.ProviderSdk.GetDocument
import Kiyomi.Foundation.Networks
import Kiyomi.Security.AddressRanges
import Kiyomi.PluginSdk.Concurrency
import Kiyomi.Upstream.Fingerprint
import Kiyomi.Upstream.RequestBuilder
import Kiyomi.ProviderSdk.HeaderTransport
import Kiyomi.Upstream.ForgottenProfiles
import Kiyomi.Foundation.Cuts
import Kiyomi.Foundation.PercentEncoding
import Kiyomi.Go.Url
import Kiyomi.Go.UrlString
import Kiyomi.Dns.Dnsresolver
import Kiyomi.Dns.BootstrapQuery
import Kiyomi.Dns.RoundTrip
import Kiyomi.Dns.Usable
import Kiyomi.Go.Strconv
import Kiyomi.PluginSdk.JsonExtractor
import Kiyomi.PluginSdk.Paginator
import Kiyomi.Plugins.Mangadex.FetchChapters
import Kiyomi.Plugins.Mangafox.ChapterIds
import Kiyomi.Web.ReadingCta
import Kiyomi.PluginSdk.ImageSource
import Kiyomi.Foundation.Patterns
import Kiyomi.Foundation.Words
import Kiyomi.Plugins.Mangafox.Unpack
import Kiyomi.Plugins.Mangafox.FetchPages
import Kiyomi.Dns.Entries
import Kiyomi.Dns.ResolverLists
import Kiyomi.Web.MetadataCompare
import Kiyomi.Library.SanitizeID
import Kiyomi.Web.LibraryFilters
import Kiyomi.Foundation.Numerals
import Kiyomi.Go.Calendar
import Kiyomi.Go.TimeText
import Kiyomi.Queue.Sqlite.Timestamps
import Kiyomi.Web.ChapterOperations
import Kiyomi.Queue.Sqlite.SlotLimits
import Kiyomi.Queue.PullLimits
import Kiyomi.Cache.Progress
import Kiyomi.Foundation.Interruptions
import Kiyomi.Library.Interruptions
import Kiyomi.Library.MangaStore
import Kiyomi.Api.ChapterRefresh
import Kiyomi.Dns.Dialing
