import EmbeddableV8.Lock
set_option autoImplicit false

namespace EmbeddableV8

variable {S : Subsystems}

namespace Inv

variable {w : World S} (hi : Inv w)
include hi

theorem parked_of_key {t : ThreadId} {p : Nat} (hk : w.ctx.tm.threadStateKey t = some p) :
    (w.threads t).parked = true := by
  rw [← (hi.agrees t).parked, hk]; rfl

theorem id_ne_of_key (hid : IdInv w) {t : ThreadId} {p : Nat}
    (hk : w.ctx.tm.threadStateKey t = some p) : w.ctx.tm.threadIdKey t ≠ kInvalidId :=
  hid.has_id t (ThreadCtl.guards_ne_nil_of_parked (hi.agrees t).ok (hi.parked_of_key hk))

theorem running_of_holder {t : ThreadId} (hpc : (w.threads t).pc = .idle)
    (hm : w.ctx.tm.mutex = some t) : (w.threads t).running = true := by
  have := (hi.agrees t).mutex.1 hm
  simp only [ThreadCtl.holdsMutex, hpc] at this
  simp only [ThreadCtl.running, hpc, this]

end Inv

/-- The two lists are rings through their anchors; each allocated state is in exactly one of
them or the lazy slot; every in-use or pending state carries the nonzero id of the one thread
whose key points to it; `GetFree` allocates only when the free list is empty; and the
`FirstInUse`/`Next` walk ends after visiting the in-use list once. -/
def World.StatesWellFormed (w : World S) : Prop :=
  ∃ F U, StoreInv w.ctx.tm F U ∧ w.ctx.tm.inUseStates = some U ∧
    (∀ p ∈ U ++ w.ctx.tm.lazilyArchivedThreadState.toList, ∃ t,
      w.ctx.tm.threadStateKey t = some p ∧ (w.ctx.tm.heap p).id = w.ctx.tm.threadIdKey t ∧
      (w.ctx.tm.heap p).id ≠ kInvalidId ∧ ∀ u, w.ctx.tm.threadStateKey u = some p → u = t) ∧
    ∀ p F', F = p :: F' → w.ctx.tm.getFree = (w.ctx.tm, p)

theorem statesWellFormed_of_noOverflow {w : World S} (hw : ReachableNoOverflow w) :
    w.StatesWellFormed := by
  have hi := hw.reachable.inv
  have hid := hw.idInv
  obtain ⟨F, U, hs⟩ := hi.store
  have howner : ∀ t p, w.ctx.tm.threadStateKey t = some p →
      (w.ctx.tm.heap p).id = w.ctx.tm.threadIdKey t → ∃ t', w.ctx.tm.threadStateKey t' = some p ∧
        (w.ctx.tm.heap p).id = w.ctx.tm.threadIdKey t' ∧ (w.ctx.tm.heap p).id ≠ kInvalidId ∧
        ∀ u, w.ctx.tm.threadStateKey u = some p → u = t' :=
    fun t p hk hp => ⟨t, hk, hp, hp ▸ hi.id_ne_of_key hid hk, fun u hu => hs.key_inj u t p hu hk⟩
  refine ⟨F, U, hs, hs.inUseStates_eq, fun p hp => ?_, fun p F' h => hs.getFree_of_cons h⟩
  rcases List.mem_append.1 hp with hp | hp
  · obtain ⟨t, hk, hid'⟩ := hs.inUse_key p hp
    exact howner t p hk hid'
  · have hl : w.ctx.tm.lazilyArchivedThreadState = some p := by simpa using hp
    have hv : w.ctx.tm.lazilyArchivedThread.isSome = true := by rw [hs.lazy_valid, hl]; rfl
    obtain ⟨t, ht⟩ := Option.isSome_iff_exists.1 hv
    obtain ⟨hk, hid', -⟩ := hs.lazy_state t p ht hl
    exact howner t p hk hid'

theorem statesWellFormed_handOff :
    ReachableNoOverflow ((handOff.foldl World.next (World.init Subsystems.word)).next
        (.unlockerEnter 1)) ∧
      ((handOff.foldl World.next (World.init Subsystems.word)).next
        (.unlockerEnter 1)).ctx.tm.lazilyArchivedThread = some 1 ∧
      ((handOff.foldl World.next (World.init Subsystems.word)).next
        (.unlockerEnter 1)).ctx.tm.threadStateKey 0 = some 2 ∧
      ((handOff.foldl World.next (World.init Subsystems.word)).next
        (.unlockerEnter 1)).StatesWellFormed :=
  have h := run_handOff
  have hw : ReachableNoOverflow ((handOff.foldl World.next (World.init Subsystems.word)).next
      (.unlockerEnter 1)) :=
    .step h.2.1 (by rw [World.Enabled, h.2.2.1]; exact ⟨rfl, rfl⟩) trivial
  ⟨hw, by simp [World.next, archiveThread], by simp [World.next, archiveThread, h.2.2.2.2.2.2.1],
    statesWellFormed_of_noOverflow hw⟩

/-- Once `last_id_` has wrapped, the state `ArchiveThread` leaves in the lazy slot carries the
id `0`. -/
theorem lazy_state_invalid_id_after_wrap :
    ∃ w : World Subsystems.word, Reachable w ∧ ∃ p,
      w.ctx.tm.lazilyArchivedThreadState = some p ∧ (w.ctx.tm.heap p).id = kInvalidId := by
  obtain ⟨w, hw, ht, hid⟩ := exists_wrapped_id
  refine ⟨w.next (.unlockerEnter (2 ^ 32 - 1)),
    .step hw (by rw [World.Enabled, ht]; exact ⟨rfl, rfl⟩) trivial,
    w.ctx.tm.getFree.2, rfl, ?_⟩
  simpa [World.next, archiveThread, Heap.setId] using hid

/-- While thread `t` holds the lock outside the guard code, no archive is pending, `t` has no
archived state, and the in-use list `U` holds one state for each parked thread and nothing
else, none of them free; `Iterate` scans exactly the buffers of `U`. -/
def World.InUseParked (w : World S) (t : ThreadId) : Prop :=
  w.ctx.tm.lazilyArchivedThread = none ∧ w.ctx.tm.threadStateKey t = none ∧
    ∃ F U, StoreInv w.ctx.tm F U ∧ w.ctx.tm.inUseStates = some U ∧ U.Nodup ∧
      (∀ p, p ∈ U ↔ ∃ u, (w.threads u).parked = true ∧ w.ctx.tm.threadStateKey u = some p) ∧
      (∀ u, (w.threads u).parked = true → ∃ p ∈ U, w.ctx.tm.threadStateKey u = some p) ∧
      (∀ p ∈ U, p ∉ F) ∧ w.ctx.tm.iterate = U.map fun p => (w.ctx.tm.heap p).data

theorem inUseParked_of_holder {w : World S} (hw : Reachable w) {t : ThreadId}
    (hpc : (w.threads t).pc = .idle) (hm : w.ctx.tm.mutex = some t) : w.InUseParked t := by
  have hi := hw.inv
  have hrun := hi.running_of_holder hpc hm
  have hl := hi.lazy_none_of_running hrun
  obtain ⟨F, U, hs⟩ := hi.store
  have hkey : ∀ u p, w.ctx.tm.threadStateKey u = some p → p ∈ U :=
    fun u p hk => hs.key_inUse hk (by simp [hl])
  refine ⟨hl, hi.key_none_of_running hrun, F, U, hs, hs.inUseStates_eq,
    (List.nodup_append.1 (List.nodup_append.1 hs.nodup).1).2.1, fun p => ⟨fun hp => ?_, ?_⟩,
    fun u hu => ?_, fun p hp hF => hs.free_not_inUse hF hp, ?_⟩
  · obtain ⟨u, hk, -⟩ := hs.inUse_key p hp
    exact ⟨u, hi.parked_of_key hk, hk⟩
  · rintro ⟨u, -, hk⟩
    exact hkey u p hk
  · have := (hi.agrees u).parked
    rw [hu] at this
    obtain ⟨p, hp⟩ := Option.isSome_iff_exists.1 this
    exact ⟨p, hkey u p hp, hp⟩
  · simp [ThreadManagerData.iterate, hs.inUseStates_eq]

theorem inUseParked_handOff :
    Reachable (handOff.foldl World.next (World.init Subsystems.word)) ∧
      ((handOff.foldl World.next (World.init Subsystems.word)).threads 1).pc = .idle ∧
      (handOff.foldl World.next (World.init Subsystems.word)).ctx.tm.mutex = some 1 ∧
      ((handOff.foldl World.next (World.init Subsystems.word)).threads 0).parked = true ∧
      (handOff.foldl World.next (World.init Subsystems.word)).ctx.tm.threadStateKey 0 = some 2 ∧
      (handOff.foldl World.next (World.init Subsystems.word)).InUseParked 1 :=
  have h := run_handOff
  have hpc : ((handOff.foldl World.next (World.init Subsystems.word)).threads 1).pc = .idle := by
    rw [h.2.2.1]
  ⟨h.2.1.reachable, hpc, h.2.2.2.1, by rw [h.2.2.2.2.2.1]; rfl, h.2.2.2.2.2.2.1,
    inUseParked_of_holder h.2.1.reachable hpc h.2.2.2.1⟩

end EmbeddableV8
