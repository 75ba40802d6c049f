import IntroOS.Base.Sys
import IntroOS.Base.CStr
import IntroOS.Getfile.Wire
import IntroOS.Getfile.Client
import IntroOS.Getfile.ClientOk
import IntroOS.Getfile.ClientVerdict
import IntroOS.Getfile.Server
import IntroOS.Getfile.ServerVerdict
import IntroOS.Getfile.HeaderCodec
import IntroOS.Cache.Protocol
import IntroOS.Cache.Matching
import IntroOS.Cache.Segment
import IntroOS.Minify.Transport
import IntroOS.Base.Chain
import IntroOS.Minify.Steque
import IntroOS.Minify.WorkQueue
import IntroOS.Base.Loop
import IntroOS.Getfile.ContextRelease
import IntroOS.Transfer.TransferServer
import IntroOS.Cache.Tickets
import IntroOS.Cache.Conservation
import IntroOS.Cache.WorkerErrors
import IntroOS.Cache.Abandoned
import IntroOS.Cache.Sequential
import IntroOS.Cache.Completion
import IntroOS.Cache.Progress
import IntroOS.Cache.Order
import IntroOS.Cache.Writers
import IntroOS.Cache.Shm
import IntroOS.Base.Rounding
import IntroOS.Proxy.Handlers
import IntroOS.Proxy.Announced
import IntroOS.Proxy.OneHeader
import IntroOS.Minify.WorkerPool
import IntroOS.Minify.Dispatch
import IntroOS.Minify.OnSteque
import IntroOS.Minify.Service
import IntroOS.Minify.Memory
import IntroOS.Minify.MemoryQueue
import IntroOS.Minify.MemoryKept
import IntroOS.Getfile.RequestCodec
import IntroOS.Getfile.SentBytes
import IntroOS.Base.Refinement
import IntroOS.Transfer.Addresses
import IntroOS.Minify.StequeSequence
import IntroOS.Transfer.PartialSends
import IntroOS.Base.Search
import IntroOS.Base.Strings
import IntroOS.Content.Index
import IntroOS.Content.Load
import IntroOS.Content.Lookup
import IntroOS.Minify.Server
import IntroOS.Minify.ServerQueue
import IntroOS.Minify.ReplyAlive
import IntroOS.Minify.MagickLifetime
import IntroOS.Minify.BadImages
import IntroOS.Getfile.ByteAccounting
import IntroOS.Proxy.CacheCodec
import IntroOS.Proxy.ChunkLoops
import IntroOS.Content.Rows
import IntroOS.Content.Descriptors
import IntroOS.Getfile.HeaderCallback
import IntroOS.Getfile.OnlyContent
import IntroOS.Proxy.WriteMemory
import IntroOS.Base.Scan
import IntroOS.Minify.ExitValue
import IntroOS.Minify.LoadRequests
import IntroOS.Base.Block
import IntroOS.Base.Disk
import IntroOS.Base.Blocks
import IntroOS.Base.Descriptors
import IntroOS.Base.Framing
import IntroOS.Getfile.HeaderBuffers
import IntroOS.Getfile.LocalPath
import IntroOS.Getfile.OpenFile
import IntroOS.Getfile.BodyOffset
import IntroOS.Getfile.Workload
import IntroOS.Minify.MinifyViaRpc
import IntroOS.Minify.Pipeline
import IntroOS.Minify.XdrFormat
import IntroOS.Transfer.TransferClient
import IntroOS.Proxy.NameBuffers
import IntroOS.Proxy.Options
import IntroOS.Getfile.Downloads
import IntroOS.Getfile.Resources
import IntroOS.Getfile.ServerResources
import IntroOS.Getfile.EndToEnd
import IntroOS.Cache.Descriptors
import IntroOS.Cache.Lifecycle
import IntroOS.Cache.Daemon
import IntroOS.Proxy.Agreement
import IntroOS.Echo.Protocol
import IntroOS.Echo.Settles
