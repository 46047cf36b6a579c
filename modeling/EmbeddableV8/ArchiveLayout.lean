import EmbeddableV8.Resume
set_option autoImplicit false

namespace EmbeddableV8

@[simp] theorem writeBytes_nil (buf : Buffer) (c : Nat) : writeBytes buf c [] = buf := by
  funext i
  simp only [writeBytes, List.length_nil, Nat.add_zero, ite_eq_right_iff]
  omega

theorem writeBytes_append (buf : Buffer) (c : Nat) (a b : List Byte) :
    writeBytes buf c (a ++ b) = writeBytes (writeBytes buf c a) (c + a.length) b := by
  funext i
  simp only [writeBytes, List.length_append, List.getD_eq_getElem?_getD]
  split_ifs <;> first
    | omega
    | rfl
    | rw [List.getElem?_append_left (by omega)]
    | rw [List.getElem?_append_right (by omega), Nat.sub_sub]

theorem readBytes_writeBytes_append (buf : Buffer) (c : Nat) (a b : List Byte) :
    readBytes (writeBytes buf c (a ++ b)) c a.length = a := by
  rw [writeBytes_append, readBytes_congr fun i hi => writeBytes_of_lt _ _ _ hi,
    readBytes_writeBytes_self]

variable (S : Subsystems)

def archiveImage (ks : List Subsystem) (live : Live S) : List Byte :=
  ks.flatMap fun k => S.encode k (live k)

@[simp] theorem archiveImage_cons (k : Subsystem) (ks : List Subsystem) (live : Live S) :
    archiveImage S (k :: ks) live = S.encode k (live k) ++ archiveImage S ks live := rfl

theorem archiveImage_length (ks : List Subsystem) (live : Live S) :
    (archiveImage S ks live).length = (ks.map S.space).sum := by
  induction ks with
  | nil => rfl
  | cons k ks ih => simp [archiveImage, S.encode_length] at ih ⊢; rw [ih]

theorem archiveImage_congr (ks : List Subsystem) {live live' : Live S}
    (h : ∀ k ∈ ks, live' k = live k) : archiveImage S ks live' = archiveImage S ks live :=
  List.flatMap_congr fun k hk => by rw [h k hk]

theorem archiveImage_archiveOrder_length (live : Live S) :
    (archiveImage S (archiveOrder S) live).length = archiveSpacePerThread S := by
  rw [archiveImage_length]
  unfold archiveOrder archiveSpacePerThread
  split <;> simp <;> omega

theorem archiveAll_buf (ks : List Subsystem) (hks : ks.Nodup) (live : Live S) (buf : Buffer)
    (c : Nat) : (archiveAll S ks live buf c).2 = writeBytes buf c (archiveImage S ks live) := by
  induction ks generalizing live buf c with
  | nil => simp [archiveAll, archiveImage]
  | cons j ks ih =>
    obtain ⟨hj, hks⟩ := List.nodup_cons.1 hks
    have hlive : ∀ k ∈ ks, Function.update live j (S.blank j) k = live k :=
      fun k hk => Function.update_noteq (ne_of_mem_of_not_mem hk hj) _ _
    rw [archiveAll, ih hks, archiveImage_congr S ks hlive, archiveImage_cons, writeBytes_append,
      S.encode_length]

def iterateOrder : List Subsystem := [.handleScopeImplementer, .top, .relocatable]

/-- The chain `data = X::Iterate(v, data)`: each subsystem visits the roots of the record at
the cursor and moves the cursor past its `ArchiveSpacePerThread()` bytes. The result pairs each
subsystem with the bytes it reads its record from. -/
def iterateChain : List Subsystem → Buffer → Nat → List (Subsystem × List Byte)
  | [], _, _ => []
  | k :: ks, buf, c => (k, readBytes buf c (S.space k)) :: iterateChain ks buf (c + S.space k)

/-- What `Top::MarkCompactPrologue` and `Top::MarkCompactEpilogue` read of a state's buffer:
the record at `data + HandleScopeImplementer::ArchiveSpacePerThread()`. -/
def markCompactData (buf : Buffer) : List Byte :=
  readBytes buf (S.space .handleScopeImplementer) (S.space .top)

theorem archiveOrder_eq_iterateOrder_append :
    archiveOrder S = iterateOrder ++ ((if S.debuggerSupport then [.debug] else []) ++
      [.stackGuard, .regExpStack, .bootstrapper]) := by
  simp [archiveOrder, iterateOrder]

theorem iterateChain_writeBytes (ks : List Subsystem) (live : Live S) (rest : List Byte)
    (buf : Buffer) (c : Nat) :
    iterateChain S ks (writeBytes buf c (archiveImage S ks live ++ rest)) c =
      ks.map fun k => (k, S.encode k (live k)) := by
  induction ks generalizing buf c with
  | nil => rfl
  | cons k ks ih =>
    have hhead : readBytes (writeBytes buf c (S.encode k (live k) ++
        (archiveImage S ks live ++ rest))) c (S.space k) = S.encode k (live k) := by
      rw [← S.encode_length k (live k), readBytes_writeBytes_append]
    rw [archiveImage_cons, List.append_assoc, iterateChain, hhead, writeBytes_append,
      S.encode_length, ih, List.map_cons]

theorem restoreAll_of_mem_iterateChain {ks ks' : List Subsystem} (hks : (ks ++ ks').Nodup)
    {buf : Buffer} {c : Nat} {live : Live S} {k : Subsystem} {bs : List Byte}
    (h : (k, bs) ∈ iterateChain S ks buf c) :
    restoreAll S (ks ++ ks') buf c live k = S.decode k bs := by
  induction ks generalizing c live with
  | nil => cases h
  | cons j ks ih =>
    rw [List.cons_append, List.nodup_cons] at hks
    obtain ⟨hj, hks⟩ := hks
    simp only [iterateChain, List.mem_cons, Prod.mk.injEq] at h
    rw [List.cons_append, restoreAll]
    rcases h with ⟨rfl, rfl⟩ | h
    · rw [restoreAll_of_not_mem S _ _ _ _ hj, Function.update_same]
    · exact ih hks h

variable {S}

/-- `EagerlyArchiveThread` writes exactly `ArchiveSpacePerThread()` bytes from the start of the
pending state's buffer and nothing past them; `RestoreThread`'s chain reads every record back
from where it was written, so that `RestoreThread`'s restore of the state gives back every
record, the stack guard's with termination requested if the state is marked; and `Iterate` and
`MarkCompactPrologue`/`Epilogue` find `HandleScopeImplementer`'s, `Top`'s and `Relocatable`'s
records where they were written. -/
theorem eagerlyArchiveThread_layout (c : Context S) {p : Nat}
    (hp : c.tm.lazilyArchivedThreadState = some p) (live' : Live S) :
    let d := ((eagerlyArchiveThread c).tm.heap p).data
    d = writeBytes (c.tm.heap p).data 0 (archiveImage S (archiveOrder S) c.live) ∧
      (archiveImage S (archiveOrder S) c.live).length = archiveSpacePerThread S ∧
      (∀ k ∈ restoreOrder S, restoreAll S (restoreOrder S) d 0 live' k = c.live k) ∧
      (∀ t, ∀ k ∈ restoreOrder S, (restoreState t p (eagerlyArchiveThread c)).live k =
        (if (c.tm.heap p).terminateOnRestore then
          Function.update c.live .stackGuard (S.terminateExecution (c.live .stackGuard))
        else c.live) k) ∧
      iterateChain S iterateOrder d 0 = iterateOrder.map (fun k => (k, S.encode k (c.live k))) ∧
      markCompactData S d = S.encode .top (c.live .top) := by
  have hd : ((eagerlyArchiveThread c).tm.heap p).data =
      (archiveAll S (archiveOrder S) c.live (c.tm.heap p).data 0).2 := by
    simp [eagerlyArchiveThread, hp]
  have himage : ((eagerlyArchiveThread c).tm.heap p).data =
      writeBytes (c.tm.heap p).data 0 (archiveImage S (archiveOrder S) c.live) := by
    rw [hd, archiveAll_buf S _ (archiveOrder_nodup S)]
  have hiter : iterateChain S iterateOrder ((eagerlyArchiveThread c).tm.heap p).data 0 =
      iterateOrder.map (fun k => (k, S.encode k (c.live k))) := by
    rw [himage, archiveOrder_eq_iterateOrder_append, archiveImage, List.flatMap_append,
      ← archiveImage, iterateChain_writeBytes]
  have hread : ∀ live', ∀ k ∈ restoreOrder S,
      restoreAll S (restoreOrder S) ((eagerlyArchiveThread c).tm.heap p).data 0 live' k =
        c.live k := fun live' k hk => by
    rw [hd, restoreOrder_eq, restoreAll_archiveAll S _ (archiveOrder_nodup S),
      if_pos (show k ∈ archiveOrder S from hk)]
  have hflag : ((eagerlyArchiveThread c).tm.heap p).terminateOnRestore =
      (c.tm.heap p).terminateOnRestore := by
    simp [eagerlyArchiveThread, hp]
  refine ⟨himage, archiveImage_archiveOrder_length S c.live, hread live', fun t k hk => ?_,
    hiter, ?_⟩
  · have hsg : Subsystem.stackGuard ∈ restoreOrder S := stackGuard_mem_archiveOrder
    simp only [restoreState, hflag]
    by_cases hks : k = .stackGuard
    · subst hks
      split <;> simp [hread _ _ hsg]
    · split <;> simp [Function.update_noteq hks, hread _ k hk]
  · exact (by simpa [iterateChain, iterateOrder] using hiter : _ ∧ _ ∧ _).2.1

theorem eagerlyArchiveThread_layout_word :
    let c : Context Subsystems.word :=
      archiveThread 0
        ⟨ThreadManagerData.init, fun k => if k = .top then (7 : UInt32) else (0 : UInt32), false⟩
    let d := ((eagerlyArchiveThread c).tm.heap 2).data
    c.tm.lazilyArchivedThreadState = some 2 ∧
      (d = writeBytes (c.tm.heap 2).data 0
          (archiveImage Subsystems.word (archiveOrder Subsystems.word) c.live) ∧
        (archiveImage Subsystems.word (archiveOrder Subsystems.word) c.live).length =
          archiveSpacePerThread Subsystems.word ∧
        (∀ k ∈ restoreOrder Subsystems.word,
          restoreAll Subsystems.word (restoreOrder Subsystems.word) d 0 (fun _ => (0 : UInt32)) k =
            c.live k) ∧
        (∀ t, ∀ k ∈ restoreOrder Subsystems.word,
          (restoreState t 2 (eagerlyArchiveThread c)).live k =
            (if (c.tm.heap 2).terminateOnRestore then
              Function.update c.live .stackGuard
                (Subsystems.word.terminateExecution (c.live .stackGuard))
            else c.live) k) ∧
        iterateChain Subsystems.word iterateOrder d 0 =
          iterateOrder.map (fun k => (k, Subsystems.word.encode k (c.live k))) ∧
        markCompactData Subsystems.word d = Subsystems.word.encode .top (c.live .top)) :=
  ⟨rfl, eagerlyArchiveThread_layout _ rfl _⟩

/-- In every reachable world each buffer `Iterate` scans is a parked thread's, and the record
each of `HandleScopeImplementer`, `Top` and `Relocatable` visits there, like the one
`Top::MarkCompactPrologue`/`Epilogue` read, is the record that thread will resume with. -/
theorem Reachable.iterate_visits_saved {w : World S} (hw : Reachable w) {d : Buffer}
    (hd : d ∈ w.ctx.tm.iterate) :
    ∃ t, (w.threads t).parked = true ∧
      (∀ k bs, (k, bs) ∈ iterateChain S iterateOrder d 0 → S.decode k bs = w.ctx.saved t k) ∧
      S.decode .top (markCompactData S d) = w.ctx.saved t .top := by
  have hi := hw.inv
  obtain ⟨F, U, hs⟩ := hi.store
  obtain ⟨p, hp, rfl⟩ : ∃ p ∈ U, (w.ctx.tm.heap p).data = d := by
    simpa [ThreadManagerData.iterate, hs.inUseStates_eq] using hd
  obtain ⟨t, hk, -⟩ := hs.inUse_key p hp
  have hl : w.ctx.tm.lazilyArchivedThread ≠ some t :=
    fun hl => (hs.lazy_not_mem (hs.key_lazy hk hl)).2 hp
  have hsaved : w.ctx.saved t = restoreAll S (restoreOrder S) (w.ctx.tm.heap p).data 0 S.blank := by
    simp [Context.saved, hk, hl]
  have hvisit : ∀ k bs, (k, bs) ∈ iterateChain S iterateOrder (w.ctx.tm.heap p).data 0 →
      S.decode k bs = w.ctx.saved t k := by
    intro k bs h
    have hnd := archiveOrder_nodup S
    rw [archiveOrder_eq_iterateOrder_append] at hnd
    rw [hsaved, restoreOrder_eq, archiveOrder_eq_iterateOrder_append,
      restoreAll_of_mem_iterateChain S hnd h]
  exact ⟨t, hi.parked_of_key hk, hvisit,
    hvisit _ _ (by simp [iterateChain, iterateOrder, markCompactData])⟩

theorem iterate_visits_saved_handOff :
    Reachable (handOff.foldl World.next (World.init Subsystems.word)) ∧
      ((handOff.foldl World.next (World.init Subsystems.word)).ctx.tm.heap 2).data ∈
        (handOff.foldl World.next (World.init Subsystems.word)).ctx.tm.iterate ∧
      ∃ t, ((handOff.foldl World.next (World.init Subsystems.word)).threads t).parked = true ∧
        (∀ k bs, (k, bs) ∈ iterateChain Subsystems.word iterateOrder
            ((handOff.foldl World.next (World.init Subsystems.word)).ctx.tm.heap 2).data 0 →
          Subsystems.word.decode k bs =
            (handOff.foldl World.next (World.init Subsystems.word)).ctx.saved t k) ∧
        Subsystems.word.decode .top (markCompactData Subsystems.word
            ((handOff.foldl World.next (World.init Subsystems.word)).ctx.tm.heap 2).data) =
          (handOff.foldl World.next (World.init Subsystems.word)).ctx.saved t .top := by
  obtain ⟨-, hw, -, -, -, -, hk, hl⟩ := run_handOff
  obtain ⟨F, U, hs⟩ := hw.reachable.inv.store
  have hd : ((handOff.foldl World.next (World.init Subsystems.word)).ctx.tm.heap 2).data ∈
      (handOff.foldl World.next (World.init Subsystems.word)).ctx.tm.iterate := by
    simpa [ThreadManagerData.iterate, hs.inUseStates_eq] using ⟨2, hs.key_inUse hk (by simp [hl]), rfl⟩
  exact ⟨hw.reachable, hd, hw.reachable.iterate_visits_saved hd⟩

end EmbeddableV8
