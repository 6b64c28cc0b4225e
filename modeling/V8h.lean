import V8h.BufferFifo
import V8h.BufferLive
import V8h.BufferPool
import V8h.BufferMemory
import V8h.Epoll
import V8h.FileRead
import V8h.RequireExports
import V8h.RequireTree
import V8h.ServiceRun
import V8h.HttpIsolation
import V8h.SocketOnce
import V8h.SocketRead
import V8h.SocketWrites
import V8h.HttpSafety
import V8h.HttpStack
import V8h.HttpListen
import V8h.HttpResponse
import V8h.HttpRequests
import V8h.SocketReceive
import V8h.SocketHangup
import V8h.SocketTransient
import V8h.HttpHeader
import V8h.HttpBody
import V8h.HttpFlush
import V8h.HttpMultipart
import V8h.Lib.Tripling
import V8h.BufferGrowth
import V8h.BufferSearch
import V8h.BufferCodec
import V8h.SocketTyped
import V8h.BufferText
import V8h.BufferSplit
import V8h.BufferCopy
import V8h.Stream
import V8h.PoolLimits
import V8h.CamelCase
import V8h.ServiceCount
import V8h.ServiceJs
import V8h.RequireKeys
import V8h.Memcached
import V8h.Peers
import V8h.HttpTalk
import V8h.BufferCost
import V8h.HttpFields
import V8h.CamelNames
