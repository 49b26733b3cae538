import Minidox.Cache.PageCacheAtomic
import Minidox.Cache.PageCacheReads
import Minidox.Cache.Shared.DirtyTracking
import Minidox.Cache.Shared.FailedOperations
import Minidox.Cache.Shared.Interleavings
import Minidox.Cache.Shared.Isolation
import Minidox.Flattening
import Minidox.Fork.FailedWrites
import Minidox.Fuse.Framing
import Minidox.Ram.DirtyRanges
import Minidox.Ram.Manifest
import Minidox.Redox.Decoding
import Minidox.Redox.DiskFailures
import Minidox.Virtiofs.ForkFailures
import Minidox.Virtiofs.Removal
import Minidox.Vmm.Pausing
