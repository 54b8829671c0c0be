import Yrmcds.Worker
import Yrmcds.TcpClose
import Yrmcds.TcpWait
import Yrmcds.Buckets
import Yrmcds.Assoc
import Yrmcds.Buffers
import Yrmcds.Counter.Maximum
import Yrmcds.Counter.Stream
import Yrmcds.Memcache.Arithmetic
import Yrmcds.Memcache.Erasure
import Yrmcds.Memcache.ByteString
import Yrmcds.Memcache.MultiGet
import Yrmcds.Memcache.Errno
import Yrmcds.Memcache.Locality
import Yrmcds.Memcache.Times
import Yrmcds.Memcache.LockGet
import Yrmcds.Memcache.Accounting
import Yrmcds.Memcache.TextReplies
import Yrmcds.Memcache.Ages
import Yrmcds.Memcache.KeyScan
import Yrmcds.Memcache.Failover
import Yrmcds.Reactor.Removal
import Yrmcds.Reactor.Slave
