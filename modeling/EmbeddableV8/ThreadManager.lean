import EmbeddableV8.ThreadState
set_option autoImplicit false

/-!
`ThreadManager` of `v8threads.cc` for one context. The thread-local keys become maps from
threads. An `ASSERT` is not part of a function's effect; the predicate next to a function says
whether its `ASSERT`s hold.
-/

namespace EmbeddableV8

/-- `++` on an `int`. C++ leaves signed overflow undefined; the model takes the two's
complement wrap of the compiled code. -/
def intSucc (x : Int) : Int := if x = 2 ^ 31 - 1 then -2 ^ 31 else x + 1

structure ThreadManagerData where
  lastId : Int
  /-- The thread holding the platform mutex `mutex_`. -/
  mutex : Option ThreadId
  mutexOwner : Option ThreadId
  lazilyArchivedThread : Option ThreadId
  lazilyArchivedThreadState : Option Nat
  freeAnchor : Nat
  inUseAnchor : Nat
  /-- `thread_state_key_` of each thread; `NULL` is `none`. -/
  threadStateKey : ThreadId → Option Nat
  /-- `thread_id_key_` of each thread as `GetThreadLocalInt` reads it; `NULL` reads 0. -/
  threadIdKey : ThreadId → Int
  heap : Heap
  fresh : Nat

namespace ThreadManagerData

def init : ThreadManagerData where
  lastId := 0
  mutex := none
  mutexOwner := none
  lazilyArchivedThread := none
  lazilyArchivedThreadState := none
  freeAnchor := 0
  inUseAnchor := 1
  threadStateKey := fun _ => none
  threadIdKey := fun _ => 0
  heap := ThreadState.new
  fresh := 2

variable (tm : ThreadManagerData) (t : ThreadId)

/-- Modelled from the spec: `ThreadManager::IsLockedByCurrentThread` is declared in
`v8threads.h`; it is `mutex_owner_.IsSelf()`. -/
def isLockedByCurrentThread : Bool := tm.mutexOwner = some t

def hasId : Bool := tm.threadIdKey t ≠ 0

def isArchived : Bool := (tm.threadStateKey t).isSome

/-- `ThreadState::GetFree`: the first state of the free list, or a new one with the buffer
`AllocateSpace` allocates. -/
def getFree : ThreadManagerData × Nat :=
  if (tm.heap tm.freeAnchor).next = tm.freeAnchor then
    ({ tm with heap := Function.update tm.heap tm.fresh (ThreadState.new tm.fresh),
               fresh := tm.fresh + 1 }, tm.fresh)
  else (tm, (tm.heap tm.freeAnchor).next)

/-- The states the `FirstInUse`/`Next` loops of `Iterate`, `MarkCompactPrologue`,
`MarkCompactEpilogue` and `TerminateExecution` visit, with one iteration per allocated cell
as fuel. -/
def inUseStates : Option (List Nat) :=
  walk tm.heap tm.inUseAnchor tm.fresh (nextState tm.heap tm.inUseAnchor tm.inUseAnchor)

def iterate : List Buffer := ((inUseStates tm).getD []).map fun p => (tm.heap p).data

end ThreadManagerData

/-- What the thread manager reads and writes of a `V8Context`. -/
structure Context (S : Subsystems) where
  tm : ThreadManagerData
  live : Live S
  active : Bool

variable {S : Subsystems}

/-- `ThreadManager::ArchiveThread` on thread `t`: the lazy archive, which writes no record. -/
def archiveThread (t : ThreadId) (c : Context S) : Context S :=
  let g := c.tm.getFree
  { c with tm := { c.tm with
      heap := (g.1.heap.unlink g.2).setId g.2 (c.tm.threadIdKey t)
      fresh := g.1.fresh
      threadStateKey := Function.update c.tm.threadStateKey t (some g.2)
      lazilyArchivedThread := some t
      lazilyArchivedThreadState := some g.2 } }

def archiveThreadOk (t : ThreadId) (c : Context S) : Prop :=
  c.tm.lazilyArchivedThread = none ∧ c.tm.threadStateKey t = none ∧
    (c.tm.getFree.1.heap c.tm.getFree.2).id = kInvalidId ∧ c.tm.threadIdKey t ≠ kInvalidId

/-- `ThreadManager::EagerlyArchiveThread`: the pending state joins the in-use list and every
subsystem writes its record into the state's buffer. -/
def eagerlyArchiveThread (c : Context S) : Context S :=
  match c.tm.lazilyArchivedThreadState with
  | none => c
  | some state =>
    let heap := c.tm.heap.linkInto state c.tm.inUseAnchor
    let r := archiveAll S (archiveOrder S) c.live (heap state).data 0
    { c with
      live := r.1
      tm := { c.tm with
        heap := heap.setData state r.2
        lazilyArchivedThread := none
        lazilyArchivedThreadState := none } }

/-- The lazy path of `RestoreThread`: the pending state of `t` goes back to the free list,
never written. -/
def reclaimLazy (t : ThreadId) (state : Nat) (c : Context S) : Context S :=
  { c with tm := { c.tm with
      lazilyArchivedThread := none
      heap := (c.tm.heap.setId state kInvalidId).linkInto state c.tm.freeAnchor
      lazilyArchivedThreadState := none
      threadStateKey := Function.update c.tm.threadStateKey t none } }

/-- The full path of `RestoreThread` once `t`'s state is known: every subsystem reads its
record back, a pending termination is requested, and the state returns to the free list. -/
def restoreState (t : ThreadId) (state : Nat) (c : Context S) : Context S :=
  let st := c.tm.heap state
  let live := restoreAll S (restoreOrder S) st.data 0 c.live
  let heap := if st.terminateOnRestore then c.tm.heap.setTerminate state false else c.tm.heap
  { c with
    live := if st.terminateOnRestore then
        Function.update live .stackGuard (S.terminateExecution (live .stackGuard))
      else live
    tm := { c.tm with
      threadStateKey := Function.update c.tm.threadStateKey t none
      heap := ((heap.setId state kInvalidId).unlink state).linkInto state c.tm.freeAnchor } }

/-- The end of `RestoreThread`, once no other thread's archive is pending: `t`'s own state is
restored, or `t` is new to the context. -/
def restoreOwnState (t : ThreadId) (c : Context S) : Context S × Bool :=
  match c.tm.threadStateKey t with
  | none =>
    ({ c with live := Function.update c.live .stackGuard (S.initThread t (c.live .stackGuard)) },
      false)
  | some state => (restoreState t state c, true)

def restoreThread (t : ThreadId) (c : Context S) : Context S × Bool :=
  if c.tm.lazilyArchivedThread = some t then
    match c.tm.lazilyArchivedThreadState with
    | none => (c, true)
    | some state => (reclaimLazy t state c, true)
  else restoreOwnState t (if c.tm.lazilyArchivedThread.isSome then eagerlyArchiveThread c else c)

def restoreThreadOk (t : ThreadId) (c : Context S) : Prop :=
  if c.tm.lazilyArchivedThread = some t then
    c.tm.lazilyArchivedThreadState.isSome ∧
      c.tm.threadStateKey t = c.tm.lazilyArchivedThreadState
  else c.tm.lazilyArchivedThread.isSome → c.tm.lazilyArchivedThreadState.isSome

def freeThreadResources (c : Context S) : Context S :=
  { c with live := freeAll S (freeOrder S) c.live }

def assignId (t : ThreadId) (c : Context S) : Context S :=
  if c.tm.hasId t then c
  else
    let threadId := intSucc c.tm.lastId
    { c with
      tm := { c.tm with
        lastId := threadId
        threadIdKey := Function.update c.tm.threadIdKey t threadId }
      live := Function.update c.live .top (S.setThreadId threadId (c.live .top)) }

section
variable {t : ThreadId} {c : Context S}

@[simp] theorem assignId_mutex : (assignId t c).tm.mutex = c.tm.mutex := by
  unfold assignId; split <;> rfl

@[simp] theorem assignId_mutexOwner : (assignId t c).tm.mutexOwner = c.tm.mutexOwner := by
  unfold assignId; split <;> rfl

@[simp] theorem assignId_threadStateKey :
    (assignId t c).tm.threadStateKey = c.tm.threadStateKey := by
  unfold assignId; split <;> rfl

@[simp] theorem assignId_lazilyArchivedThread :
    (assignId t c).tm.lazilyArchivedThread = c.tm.lazilyArchivedThread := by
  unfold assignId; split <;> rfl

end

def assignIdOk (t : ThreadId) (c : Context S) : Prop :=
  c.tm.hasId t = false → c.tm.isLockedByCurrentThread t ∧ 0 < intSucc c.tm.lastId

def markTerminate (threadId : Int) (h : Heap) (p : Nat) : Heap :=
  if threadId = (h p).id then h.setTerminate p true else h

def terminateExecution (threadId : Int) (c : Context S) : Context S :=
  { c with tm := { c.tm with
      heap := (c.tm.inUseStates.getD []).foldl (markTerminate threadId) c.tm.heap } }

theorem markTerminate_apply (threadId : Int) (h : Heap) (p x : Nat) :
    markTerminate threadId h p x =
      if x = p ∧ threadId = (h x).id then { h x with terminateOnRestore := true } else h x := by
  by_cases hx : x = p
  · subst hx
    by_cases hn : threadId = (h x).id <;> simp [markTerminate, Heap.setTerminate, hn]
  · unfold markTerminate
    split <;> simp [Heap.setTerminate, Function.update_noteq hx, hx]

theorem foldl_markTerminate (threadId : Int) (ps : List Nat) (h : Heap) (x : Nat) :
    ps.foldl (markTerminate threadId) h x =
      if x ∈ ps ∧ threadId = (h x).id then { h x with terminateOnRestore := true } else h x := by
  induction ps generalizing h with
  | nil => simp
  | cons p ps ih =>
    rw [List.foldl_cons, ih, markTerminate_apply]
    by_cases hn : threadId = (h x).id
    · by_cases hx : x = p <;> simp [hx, hn]
    · simp [hn]

structure ThreadManagerData.SameLock (tm tm' : ThreadManagerData) : Prop where
  mutex : tm'.mutex = tm.mutex
  mutexOwner : tm'.mutexOwner = tm.mutexOwner
  lastId : tm'.lastId = tm.lastId
  threadIdKey : tm'.threadIdKey = tm.threadIdKey

namespace ThreadManagerData.SameLock

variable {t : ThreadId} {c : Context S}

theorem trans {tm₁ tm₂ tm₃ : ThreadManagerData} (h₁ : tm₁.SameLock tm₂) (h₂ : tm₂.SameLock tm₃) :
    tm₁.SameLock tm₃ :=
  ⟨h₂.1.trans h₁.1, h₂.2.trans h₁.2, h₂.3.trans h₁.3, h₂.4.trans h₁.4⟩

theorem archiveThread : c.tm.SameLock (archiveThread t c).tm := ⟨rfl, rfl, rfl, rfl⟩

theorem eagerlyArchiveThread : c.tm.SameLock (eagerlyArchiveThread c).tm := by
  unfold EmbeddableV8.eagerlyArchiveThread
  split <;> exact ⟨rfl, rfl, rfl, rfl⟩

theorem restoreOwnState : c.tm.SameLock (restoreOwnState t c).1.tm := by
  unfold EmbeddableV8.restoreOwnState
  split <;> exact ⟨rfl, rfl, rfl, rfl⟩

theorem restoreThread : c.tm.SameLock (restoreThread t c).1.tm := by
  unfold EmbeddableV8.restoreThread
  split
  · split <;> exact ⟨rfl, rfl, rfl, rfl⟩
  · split
    · exact eagerlyArchiveThread.trans restoreOwnState
    · exact restoreOwnState

theorem terminateExecution {n : Int} : c.tm.SameLock (terminateExecution n c).tm :=
  ⟨rfl, rfl, rfl, rfl⟩

end ThreadManagerData.SameLock

end EmbeddableV8
