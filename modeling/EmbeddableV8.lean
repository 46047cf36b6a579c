import EmbeddableV8.Archivable
import EmbeddableV8.ThreadState
import EmbeddableV8.ThreadManager
import EmbeddableV8.Locker
import EmbeddableV8.Store
import EmbeddableV8.Invariant
import EmbeddableV8.Ids
import EmbeddableV8.Lock
import EmbeddableV8.Lists
import EmbeddableV8.Resume
import EmbeddableV8.Termination
import EmbeddableV8.TopThreadId
import EmbeddableV8.VMState
import EmbeddableV8.LoggedWorld
import EmbeddableV8.Binding
import EmbeddableV8.ContextSwitcher
import EmbeddableV8.Preemption
import EmbeddableV8.PreemptedWorld
import EmbeddableV8.ArchiveLayout
import EmbeddableV8.IdLog
import EmbeddableV8.Zone
import EmbeddableV8.ZoneChain
import EmbeddableV8.ClustersCoarser
import EmbeddableV8.RetainerTree
import EmbeddableV8.RetainerPrint
import EmbeddableV8.RegExpStack
import EmbeddableV8.RegExpWorld
import EmbeddableV8.HeapSample
