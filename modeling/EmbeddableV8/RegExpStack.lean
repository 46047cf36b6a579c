import EmbeddableV8.Archivable
set_option autoImplicit false

/-!
`RegExpStack`'s backtracking stack. `regexp-stack.h` is not in the repository: the constants are
parameters, and `ThreadLocal()` is the empty stack that `EnsureCapacity` and `Free` take it to
be (`memory_` null, `memory_size_` 0).
-/

namespace EmbeddableV8

/-- `kMinimumStackSize`, `kMaximumStackSize`, `kStackLimitSlack`, `kPointerSize`, and the
`limit_` of `ThreadLocal()`. -/
structure RegExpStackConstants where
  kMinimumStackSize : Nat
  kMaximumStackSize : Nat
  kStackLimitSlack : Nat
  kPointerSize : Nat
  kMemoryTop : Nat
  minimum_le_maximum : kMinimumStackSize ≤ kMaximumStackSize

structure RegExpThreadLocal where
  memory : Nat
  memorySize : Nat
  limit : Nat
  deriving DecidableEq, Repr

/-- The arrays `NewArray` has handed out and `DeleteArray` not taken back, as (address, length),
and the bytes of memory. -/
structure CHeap where
  blocks : List (Nat × Nat)
  bytes : Buffer

structure RegExpStackState where
  threadLocal : RegExpThreadLocal
  heap : CHeap

variable (K : RegExpStackConstants)

def RegExpThreadLocal.empty : RegExpThreadLocal := ⟨0, 0, K.kMemoryTop⟩

namespace CHeap

def newArray (h : CHeap) (a n : Nat) : CHeap := { h with blocks := (a, n) :: h.blocks }

def deleteArray (h : CHeap) (a : Nat) : CHeap :=
  { h with blocks := h.blocks.filter fun b => b.1 != a }

def memcpy (h : CHeap) (dst src n : Nat) : CHeap :=
  { h with bytes := writeBytes h.bytes dst (readBytes h.bytes src n) }

end CHeap

/-- `RegExpStack::EnsureCapacity(size)`, where `NewArray` returns `newMemory`: the state after,
and the address returned. -/
def ensureCapacity (newMemory size : Nat) (s : RegExpStackState) : RegExpStackState × Nat :=
  if size > K.kMaximumStackSize then (s, 0)
  else
    let size := if size < K.kMinimumStackSize then K.kMinimumStackSize else size
    let tl := s.threadLocal
    if tl.memorySize < size then
      let heap := s.heap.newArray newMemory size
      let heap := if tl.memorySize > 0 then
          (heap.memcpy (newMemory + size - tl.memorySize) tl.memory tl.memorySize).deleteArray
            tl.memory
        else heap
      (⟨⟨newMemory, size, newMemory + K.kStackLimitSlack * K.kPointerSize⟩, heap⟩, newMemory + size)
    else (s, tl.memory + tl.memorySize)

/-- `RegExpStack::Reset` and `ThreadLocal::Free`: take the stack back if it is larger than
`threshold`. -/
def releaseAbove (threshold : Nat) (s : RegExpStackState) : RegExpStackState :=
  if s.threadLocal.memorySize > threshold then
    ⟨RegExpThreadLocal.empty K, s.heap.deleteArray s.threadLocal.memory⟩
  else s

def reset : RegExpStackState → RegExpStackState := releaseAbove K K.kMinimumStackSize

def free : RegExpStackState → RegExpStackState := releaseAbove K 0

inductive RegExpStackOp where
  | ensureCapacity (newMemory size : Nat)
  | reset
  | free
  deriving DecidableEq, Repr

def regExpStackStep : RegExpStackOp → RegExpStackState → RegExpStackState
  | .ensureCapacity a size, s => (ensureCapacity K a size s).1
  | .reset, s => reset K s
  | .free, s => free K s

def regExpStackRun (ops : List RegExpStackOp) (s : RegExpStackState) : RegExpStackState :=
  ops.foldl (fun s op => regExpStackStep K op s) s

def AllocationsFresh : List RegExpStackOp → RegExpStackState → Prop
  | [], _ => True
  | .ensureCapacity a size :: ops, s =>
    a ∉ s.heap.blocks.map Prod.fst ∧ AllocationsFresh ops (regExpStackStep K (.ensureCapacity a size) s)
  | op :: ops, s => AllocationsFresh ops (regExpStackStep K op s)

def RegExpThreadLocal.owned (tl : RegExpThreadLocal) : List (Nat × Nat) :=
  if 0 < tl.memorySize then [(tl.memory, tl.memorySize)] else []

abbrev RegExpThreadLocal.Shaped (tl : RegExpThreadLocal) : Prop :=
  tl = RegExpThreadLocal.empty K ∨
    K.kMinimumStackSize ≤ tl.memorySize ∧ tl.memorySize ≤ K.kMaximumStackSize ∧ 0 < tl.memorySize ∧
      tl.limit = tl.memory + K.kStackLimitSlack * K.kPointerSize

/-- `thread_local_` is empty, or owns a live array of `kMinimumStackSize` to
`kMaximumStackSize` bytes with `limit_` `kStackLimitSlack` pointers above its bottom; the live
arrays are those of `heap₀` and the one it owns. -/
structure StackInv (heap₀ : CHeap) (s : RegExpStackState) : Prop where
  shape : s.threadLocal.Shaped K
  blocks : s.heap.blocks.Perm (s.threadLocal.owned ++ heap₀.blocks)
  fresh : 0 < s.threadLocal.memorySize → s.threadLocal.memory ∉ heap₀.blocks.map Prod.fst

/-! ### What one call does -/

section Step

variable {K} {heap₀ : CHeap} {s : RegExpStackState}

@[simp] theorem CHeap.newArray_bytes (h : CHeap) (a n : Nat) : (h.newArray a n).bytes = h.bytes :=
  rfl

@[simp] theorem CHeap.deleteArray_bytes (h : CHeap) (a : Nat) : (h.deleteArray a).bytes = h.bytes :=
  rfl

@[simp] theorem CHeap.memcpy_blocks (h : CHeap) (dst src n : Nat) :
    (h.memcpy dst src n).blocks = h.blocks :=
  rfl

@[simp] theorem length_readBytes (buf : Buffer) (c n : Nat) : (readBytes buf c n).length = n := by
  simp [readBytes]

@[simp] theorem owned_empty : (RegExpThreadLocal.empty K).owned = [] := rfl

theorem owned_filter {tl : RegExpThreadLocal} {l : List (Nat × Nat)} (h0 : 0 < tl.memorySize)
    (hf : tl.memory ∉ l.map Prod.fst) : (tl.owned ++ l).filter (fun b => b.1 != tl.memory) = l := by
  simp only [RegExpThreadLocal.owned, if_pos h0, List.singleton_append, List.filter_cons,
    bne_self_eq_false, Bool.false_eq_true, if_false]
  exact List.filter_eq_self.2 fun b hb => bne_iff_ne.2 fun h => hf (h ▸ List.mem_map_of_mem _ hb)

theorem StackInv.mem_blocks (hinv : StackInv K heap₀ s) (h0 : 0 < s.threadLocal.memorySize) :
    s.threadLocal.memory ∈ s.heap.blocks.map Prod.fst := by
  have : (s.threadLocal.memory, s.threadLocal.memorySize) ∈ s.heap.blocks :=
    hinv.blocks.symm.subset (List.mem_append_left _ (by simp [RegExpThreadLocal.owned, h0]))
  exact List.mem_map_of_mem Prod.fst this

theorem StackInv.init (heap₀ : CHeap) : StackInv K heap₀ ⟨.empty K, heap₀⟩ :=
  ⟨.inl rfl, by simp, fun h => absurd h (Nat.lt_irrefl 0)⟩

theorem StackInv.releaseAbove (hinv : StackInv K heap₀ s) (threshold : Nat) :
    StackInv K heap₀ (releaseAbove K threshold s) := by
  unfold EmbeddableV8.releaseAbove
  split
  · next hgt =>
    have h0 : 0 < s.threadLocal.memorySize := by omega
    refine ⟨.inl rfl, ?_, fun h => absurd h (Nat.lt_irrefl 0)⟩
    rw [owned_empty, List.nil_append, ← owned_filter h0 (hinv.fresh h0)]
    exact hinv.blocks.filter _
  · exact hinv

theorem StackInv.ensureCapacity (hinv : StackInv K heap₀ s) {a : Nat}
    (ha : a ∉ s.heap.blocks.map Prod.fst) (size : Nat) :
    StackInv K heap₀ (ensureCapacity K a size s).1 := by
  by_cases hmax : size > K.kMaximumStackSize
  · simpa only [EmbeddableV8.ensureCapacity, hmax, if_true] using hinv
  by_cases hg : s.threadLocal.memorySize <
    if size < K.kMinimumStackSize then K.kMinimumStackSize else size
  · have hn : K.kMinimumStackSize ≤ (if size < K.kMinimumStackSize then K.kMinimumStackSize else size) ∧
        (if size < K.kMinimumStackSize then K.kMinimumStackSize else size) ≤ K.kMaximumStackSize := by
      have := K.minimum_le_maximum
      constructor <;> split <;> omega
    have ha₀ : a ∉ heap₀.blocks.map Prod.fst := fun h => by
      obtain ⟨b, hb, rfl⟩ := List.mem_map.1 h
      exact ha (List.mem_map_of_mem _ (hinv.blocks.symm.subset (List.mem_append_right _ hb)))
    simp only [EmbeddableV8.ensureCapacity, hmax, hg, if_false, if_true]
    generalize (if size < K.kMinimumStackSize then K.kMinimumStackSize else size) = n at hn hg ⊢
    have hn0 : 0 < n := Nat.lt_of_le_of_lt (Nat.zero_le _) hg
    refine ⟨.inr ⟨hn.1, hn.2, hn0, rfl⟩, ?_, fun _ => ha₀⟩
    simp only [RegExpThreadLocal.owned, hn0, if_true, List.singleton_append]
    split
    · next h0 =>
      have hne : (a != s.threadLocal.memory) = true :=
        bne_iff_ne.2 fun h => ha (h ▸ hinv.mem_blocks h0)
      simp only [CHeap.deleteArray, CHeap.memcpy_blocks, CHeap.newArray, List.filter_cons, hne,
        if_true]
      exact (owned_filter h0 (hinv.fresh h0) ▸ hinv.blocks.filter _).cons _
    · next h0 =>
      have hown : s.threadLocal.owned = [] := if_neg h0
      exact (hown ▸ hinv.blocks).cons _
  · simpa only [EmbeddableV8.ensureCapacity, hmax, hg, if_false] using hinv

theorem StackInv.run : ∀ {s : RegExpStackState} {ops : List RegExpStackOp},
    StackInv K heap₀ s → AllocationsFresh K ops s → StackInv K heap₀ (regExpStackRun K ops s)
  | _, [], hinv, _ => hinv
  | _, .ensureCapacity _ size :: _, hinv, ⟨ha, hops⟩ => (hinv.ensureCapacity ha size).run hops
  | _, .reset :: _, hinv, hops => (hinv.releaseAbove _).run hops
  | _, .free :: _, hinv, hops => (hinv.releaseAbove _).run hops

end Step

/-- From `ThreadLocal()`, along every run whose allocations are fresh, `thread_local_` is empty or
a well-formed stack owning one live array, and the live arrays are those from before and that one;
`Free` then leaves `ThreadLocal()` and the arrays from before. -/
theorem regExpStack_owns_one_array (heap₀ : CHeap) (ops : List RegExpStackOp)
    (hfresh : AllocationsFresh K ops ⟨.empty K, heap₀⟩) :
    StackInv K heap₀ (regExpStackRun K ops ⟨.empty K, heap₀⟩) ∧
      (free K (regExpStackRun K ops ⟨.empty K, heap₀⟩)).threadLocal = .empty K ∧
      (free K (regExpStackRun K ops ⟨.empty K, heap₀⟩)).heap.blocks.Perm heap₀.blocks := by
  have hinv := (StackInv.init heap₀).run hfresh
  have hfree : StackInv K heap₀ (free K (regExpStackRun K ops ⟨.empty K, heap₀⟩)) :=
    hinv.releaseAbove 0
  have htl : (free K (regExpStackRun K ops ⟨.empty K, heap₀⟩)).threadLocal = .empty K := by
    unfold free releaseAbove
    split
    · rfl
    · exact hinv.shape.resolve_right fun h => by omega
  refine ⟨hinv, htl, ?_⟩
  simpa [htl] using hfree.blocks

def sampleStackConstants : RegExpStackConstants := ⟨1024, 64 * 1024 * 1024, 32, 8, 0, by decide⟩

theorem regExpStack_owns_one_array_sample :
    AllocationsFresh sampleStackConstants
        [.ensureCapacity 4096 0, .ensureCapacity 8192 2000, .reset, .free]
        ⟨.empty sampleStackConstants, ⟨[(100, 16)], fun _ => 0⟩⟩ ∧
      StackInv sampleStackConstants ⟨[(100, 16)], fun _ => 0⟩ (regExpStackRun sampleStackConstants
        [.ensureCapacity 4096 0, .ensureCapacity 8192 2000, .reset, .free]
        ⟨.empty sampleStackConstants, ⟨[(100, 16)], fun _ => 0⟩⟩) ∧
      (free sampleStackConstants (regExpStackRun sampleStackConstants
        [.ensureCapacity 4096 0, .ensureCapacity 8192 2000, .reset, .free]
        ⟨.empty sampleStackConstants, ⟨[(100, 16)], fun _ => 0⟩⟩)).threadLocal = .empty sampleStackConstants ∧
      (free sampleStackConstants (regExpStackRun sampleStackConstants
        [.ensureCapacity 4096 0, .ensureCapacity 8192 2000, .reset, .free]
        ⟨.empty sampleStackConstants, ⟨[(100, 16)], fun _ => 0⟩⟩)).heap.blocks.Perm [(100, 16)] :=
  have h : AllocationsFresh sampleStackConstants
      [.ensureCapacity 4096 0, .ensureCapacity 8192 2000, .reset, .free]
      ⟨.empty sampleStackConstants, ⟨[(100, 16)], fun _ => 0⟩⟩ := ⟨by decide, by decide, trivial⟩
  ⟨h, regExpStack_owns_one_array sampleStackConstants _ _ h⟩

/-! ### Thread switches

A record in a buffer is kept as the `RegExpThreadLocal` it copies, with its thread. -/

/-- The running thread's stack with the heap, and the records archived in threads' buffers. -/
structure RegExpStackThreads where
  current : RegExpStackState
  archived : List (ThreadId × RegExpThreadLocal)

def archiveStack (t : ThreadId) (w : RegExpStackThreads) : RegExpStackThreads :=
  ⟨{ w.current with threadLocal := .empty K }, (t, w.current.threadLocal) :: w.archived⟩

/-- `RegExpStack::RestoreStack`, as `RestoreThread` calls it for thread `t`: from `t`'s state,
which then leaves the archived ones; a thread with no state restores nothing. -/
def restoreStack (t : ThreadId) (w : RegExpStackThreads) : RegExpStackThreads :=
  match w.archived.lookup t with
  | some tl => ⟨{ w.current with threadLocal := tl }, w.archived.erase (t, tl)⟩
  | none => w

inductive RegExpThreadOp where
  | call (op : RegExpStackOp)
  | archiveStack (t : ThreadId)
  | restoreStack (t : ThreadId)
  deriving DecidableEq, Repr

def regExpThreadStep : RegExpThreadOp → RegExpStackThreads → RegExpStackThreads
  | .call op, w => ⟨regExpStackStep K op w.current, w.archived⟩
  | .archiveStack t, w => archiveStack K t w
  | .restoreStack t, w => restoreStack t w

def regExpThreadRun (ops : List RegExpThreadOp) (w : RegExpStackThreads) : RegExpStackThreads :=
  ops.foldl (fun w op => regExpThreadStep K op w) w

/-- Every address `NewArray` returns is not that of a live array, and every `RestoreStack` finds
`ThreadLocal()`, as `ArchiveStack` and `Free` leave it: `RestoreThread` first archives the thread
archived lazily, and a top-level `Locker` frees its thread's resources. -/
def SwitchesOk : List RegExpThreadOp → RegExpStackThreads → Prop
  | [], _ => True
  | .call (.ensureCapacity a size) :: ops, w =>
    a ∉ w.current.heap.blocks.map Prod.fst ∧
      SwitchesOk ops (regExpThreadStep K (.call (.ensureCapacity a size)) w)
  | .restoreStack t :: ops, w =>
    w.current.threadLocal = .empty K ∧ SwitchesOk ops (regExpThreadStep K (.restoreStack t) w)
  | op :: ops, w => SwitchesOk ops (regExpThreadStep K op w)

def archivedOwned (archived : List (ThreadId × RegExpThreadLocal)) : List (Nat × Nat) :=
  archived.flatMap fun p => p.2.owned

def ownedArrays (w : RegExpStackThreads) : List (Nat × Nat) :=
  w.current.threadLocal.owned ++ archivedOwned w.archived

/-- The running stack keeps `StackInv` over the arrays from before and those the archived records
own; each archived record is a stack `RestoreStack` may hand back; the arrays the archived records
own have distinct addresses, none that of an array from before. -/
structure SwitchInv (heap₀ : CHeap) (w : RegExpStackThreads) : Prop where
  current : StackInv K ⟨archivedOwned w.archived ++ heap₀.blocks, heap₀.bytes⟩ w.current
  shaped : ∀ p ∈ w.archived, p.2.Shaped K
  nodup : ((archivedOwned w.archived).map Prod.fst).Nodup
  fresh : ∀ b ∈ archivedOwned w.archived, b.1 ∉ heap₀.blocks.map Prod.fst

section Switches

variable {K} {heap₀ : CHeap} {w : RegExpStackThreads}

@[simp] theorem archivedOwned_cons (p : ThreadId × RegExpThreadLocal)
    (archived : List (ThreadId × RegExpThreadLocal)) :
    archivedOwned (p :: archived) = p.2.owned ++ archivedOwned archived :=
  rfl

theorem mem_owned {tl : RegExpThreadLocal} {b : Nat × Nat} :
    b ∈ tl.owned ↔ 0 < tl.memorySize ∧ b = (tl.memory, tl.memorySize) := by
  unfold RegExpThreadLocal.owned
  split <;> simp [*]

theorem nodup_owned_append_iff {tl : RegExpThreadLocal} {l : List (Nat × Nat)} :
    ((tl.owned ++ l).map Prod.fst).Nodup ↔
      (0 < tl.memorySize → tl.memory ∉ l.map Prod.fst) ∧ (l.map Prod.fst).Nodup := by
  unfold RegExpThreadLocal.owned
  split <;> simp [*]

theorem forall_owned_append_not_mem_iff {tl : RegExpThreadLocal} {l : List (Nat × Nat)}
    {xs : List Nat} : (∀ b ∈ tl.owned ++ l, b.1 ∉ xs) ↔
      (0 < tl.memorySize → tl.memory ∉ xs) ∧ ∀ b ∈ l, b.1 ∉ xs := by
  unfold RegExpThreadLocal.owned
  split <;> simp [*]

theorem mem_archived_of_lookup {archived : List (ThreadId × RegExpThreadLocal)} {t : ThreadId}
    {tl : RegExpThreadLocal} (h : archived.lookup t = some tl) : (t, tl) ∈ archived := by
  obtain ⟨l₁, l₂, rfl, -⟩ := List.lookup_eq_some_iff.1 h
  simp

theorem archivedOwned_erase {p : ThreadId × RegExpThreadLocal} :
    ∀ {archived : List (ThreadId × RegExpThreadLocal)}, p ∈ archived →
      (archivedOwned archived).Perm (p.2.owned ++ archivedOwned (archived.erase p))
  | q :: archived, hp => by
    by_cases hq : q = p
    · subst hq
      simp
    · rw [List.erase_cons_tail (by simpa using hq), archivedOwned_cons, archivedOwned_cons]
      have ih := archivedOwned_erase ((List.mem_cons.1 hp).resolve_left (Ne.symm hq))
      exact (ih.append_left _).trans (List.perm_append_comm_assoc _ _ _)

theorem SwitchInv.init (heap₀ : CHeap) : SwitchInv K heap₀ ⟨⟨.empty K, heap₀⟩, []⟩ :=
  ⟨StackInv.init heap₀, fun _ h => absurd h (List.not_mem_nil _), List.nodup_nil,
    fun _ h => absurd h (List.not_mem_nil _)⟩

theorem SwitchInv.call (hinv : SwitchInv K heap₀ w) {s : RegExpStackState}
    (hs : StackInv K ⟨archivedOwned w.archived ++ heap₀.blocks, heap₀.bytes⟩ s) :
    SwitchInv K heap₀ ⟨s, w.archived⟩ :=
  ⟨hs, hinv.shaped, hinv.nodup, hinv.fresh⟩

theorem SwitchInv.archive (hinv : SwitchInv K heap₀ w) (t : ThreadId) :
    SwitchInv K heap₀ (archiveStack K t w) := by
  obtain ⟨⟨hshape, hblocks, hfresh⟩, hshaped, hnodup, hfresh₀⟩ := hinv
  have hout : 0 < w.current.threadLocal.memorySize →
      w.current.threadLocal.memory ∉ (archivedOwned w.archived).map Prod.fst ∧
        w.current.threadLocal.memory ∉ heap₀.blocks.map Prod.fst := fun h => by
    simpa [not_or] using hfresh h
  refine ⟨⟨.inl rfl, by simpa [EmbeddableV8.archiveStack] using hblocks,
    fun h => absurd h (Nat.lt_irrefl 0)⟩, ?_, ?_, ?_⟩
  · rintro p (_ | ⟨_, hp⟩)
    exacts [hshape, hshaped p hp]
  · exact nodup_owned_append_iff.2 ⟨fun h => (hout h).1, hnodup⟩
  · exact forall_owned_append_not_mem_iff.2 ⟨fun h => (hout h).2, hfresh₀⟩

theorem SwitchInv.restore (hinv : SwitchInv K heap₀ w)
    (hempty : w.current.threadLocal = .empty K) (t : ThreadId) :
    SwitchInv K heap₀ (restoreStack t w) := by
  unfold EmbeddableV8.restoreStack
  split
  · next tl hl =>
    obtain ⟨⟨-, hblocks, -⟩, hshaped, hnodup, hfresh₀⟩ := hinv
    have hmem := mem_archived_of_lookup hl
    have hperm := archivedOwned_erase hmem
    have hnd := nodup_owned_append_iff.1 ((hperm.map Prod.fst).nodup_iff.1 hnodup)
    have hsub : ∀ b ∈ archivedOwned (w.archived.erase (t, tl)), b ∈ archivedOwned w.archived :=
      fun b hb => hperm.symm.subset (List.mem_append_right _ hb)
    refine ⟨⟨hshaped _ hmem, ?_, fun h0 => ?_⟩, fun p hp => hshaped p (List.mem_of_mem_erase hp),
      hnd.2, fun b hb => hfresh₀ b (hsub b hb)⟩
    · rw [hempty, owned_empty, List.nil_append] at hblocks
      simpa only [List.append_assoc] using hblocks.trans (hperm.append_right _)
    · simp only [List.map_append, List.mem_append, not_or]
      exact ⟨hnd.1 h0, hfresh₀ _ (hperm.symm.subset (List.mem_append_left _ (mem_owned.2 ⟨h0, rfl⟩)))⟩
  · exact hinv

theorem SwitchInv.run : ∀ {w : RegExpStackThreads} {ops : List RegExpThreadOp},
    SwitchInv K heap₀ w → SwitchesOk K ops w → SwitchInv K heap₀ (regExpThreadRun K ops w)
  | _, [], hinv, _ => hinv
  | _, .call (.ensureCapacity _ size) :: _, hinv, ⟨ha, hops⟩ =>
    (hinv.call (hinv.current.ensureCapacity ha size)).run hops
  | _, .call .reset :: _, hinv, hops => (hinv.call (hinv.current.releaseAbove _)).run hops
  | _, .call .free :: _, hinv, hops => (hinv.call (hinv.current.releaseAbove _)).run hops
  | _, .archiveStack t :: _, hinv, hops => (hinv.archive t).run hops
  | _, .restoreStack t :: _, hinv, ⟨he, hops⟩ => (hinv.restore he t).run hops

theorem SwitchInv.owns (hinv : SwitchInv K heap₀ w) :
    w.current.heap.blocks.Perm (ownedArrays w ++ heap₀.blocks) ∧
      ((ownedArrays w).map Prod.fst).Nodup ∧
      ∀ b ∈ ownedArrays w, b.1 ∉ heap₀.blocks.map Prod.fst := by
  obtain ⟨⟨-, hblocks, hfresh⟩, -, hnodup, hfresh₀⟩ := hinv
  exact ⟨by simpa only [ownedArrays, List.append_assoc] using hblocks,
    nodup_owned_append_iff.2 ⟨fun h0 h => hfresh h0 (by simp [h]), hnodup⟩,
    forall_owned_append_not_mem_iff.2 ⟨fun h0 h => hfresh h0 (by simp [h]), hfresh₀⟩⟩

end Switches

/-- From `ThreadLocal()` with nothing archived, along every run of calls and thread switches whose
allocations are fresh and whose restores find `ThreadLocal()`, every live array is one from before
or is owned by exactly one record, the running thread's or an archived one: no array is leaked or
owned twice. -/
theorem regExpStack_switches_own_arrays (heap₀ : CHeap) (ops : List RegExpThreadOp)
    (hok : SwitchesOk K ops ⟨⟨.empty K, heap₀⟩, []⟩) :
    (regExpThreadRun K ops ⟨⟨.empty K, heap₀⟩, []⟩).current.heap.blocks.Perm
        (ownedArrays (regExpThreadRun K ops ⟨⟨.empty K, heap₀⟩, []⟩) ++ heap₀.blocks) ∧
      ((ownedArrays (regExpThreadRun K ops ⟨⟨.empty K, heap₀⟩, []⟩)).map Prod.fst).Nodup ∧
      ∀ b ∈ ownedArrays (regExpThreadRun K ops ⟨⟨.empty K, heap₀⟩, []⟩),
        b.1 ∉ heap₀.blocks.map Prod.fst := by
  exact ((SwitchInv.init heap₀).run hok).owns

/-- Thread `1` grows its stack and is archived, thread `2` grows one past the minimum and is
archived, and thread `1` is restored. -/
def sampleSwitches : List RegExpThreadOp :=
  [.call (.ensureCapacity 4096 0), .archiveStack 1, .call (.ensureCapacity 8192 2000),
    .archiveStack 2, .restoreStack 1]

theorem regExpStack_switches_own_arrays_sample :
    SwitchesOk sampleStackConstants sampleSwitches
        ⟨⟨.empty sampleStackConstants, ⟨[(100, 16)], fun _ => 0⟩⟩, []⟩ ∧
      (regExpThreadRun sampleStackConstants sampleSwitches
          ⟨⟨.empty sampleStackConstants, ⟨[(100, 16)], fun _ => 0⟩⟩, []⟩).current.heap.blocks.Perm
        (ownedArrays (regExpThreadRun sampleStackConstants sampleSwitches
          ⟨⟨.empty sampleStackConstants, ⟨[(100, 16)], fun _ => 0⟩⟩, []⟩) ++ [(100, 16)]) ∧
      ((ownedArrays (regExpThreadRun sampleStackConstants sampleSwitches
          ⟨⟨.empty sampleStackConstants, ⟨[(100, 16)], fun _ => 0⟩⟩, []⟩)).map Prod.fst).Nodup ∧
      ∀ b ∈ ownedArrays (regExpThreadRun sampleStackConstants sampleSwitches
          ⟨⟨.empty sampleStackConstants, ⟨[(100, 16)], fun _ => 0⟩⟩, []⟩),
        b.1 ∉ [(100, 16)].map Prod.fst :=
  have h : SwitchesOk sampleStackConstants sampleSwitches
      ⟨⟨.empty sampleStackConstants, ⟨[(100, 16)], fun _ => 0⟩⟩, []⟩ :=
    ⟨by decide, by decide, by decide, trivial⟩
  ⟨h, regExpStack_switches_own_arrays sampleStackConstants _ _ h⟩

end EmbeddableV8
