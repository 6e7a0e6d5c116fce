import Memchk.Allocation
import Memchk.Allocator.Growth
import Memchk.BlockZones
import Memchk.Confined
import Memchk.FreedCheck
import Memchk.Geometry
import Memchk.HookLock
import Memchk.Library.Doubly
import Memchk.Release
import Memchk.Signal
import Memchk.Sort
import Memchk.Virtmem.Termination
import Memchk.Virtmem.Usage
import Memchk.CheckAll
import Memchk.Realloc
import Memchk.Filemap.Basic
import Memchk.Filemap.Parsing
import Memchk.Filemap.Sessions
import Memchk.Virtmem.Readings
import Memchk.Filemap.Symbols
import Memchk.Accounting
import Memchk.Conservation
import Memchk.Provenance
import Memchk.PtrMap
import Memchk.Client
import Memchk.Filemap.Symbolize
import Memchk.GroupLists
import Memchk.Interning
import Memchk.Difference
import Memchk.Registry
import Memchk.ByCallstack
import Memchk.Status
import Memchk.DetectionRun
import Memchk.Displaced
import Memchk.Virtmem.Command
