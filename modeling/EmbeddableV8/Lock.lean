import EmbeddableV8.Ids
set_option autoImplicit false

namespace EmbeddableV8

variable {S : Subsystems}

theorem StoreInv.getFree_id {tm : ThreadManagerData} {F U : List Nat} (hs : StoreInv tm F U)
    (hl : tm.lazilyArchivedThreadState = none) : (tm.getFree.1.heap tm.getFree.2).id = kInvalidId :=
  (hs.getFree_unlink hl rfl).choose_spec.2.2.2.2.2.2.1

theorem lockerOnTop_of_unlockerOnTop {g : List Guard} (h : unlockerOnTop g = true) :
    lockerOnTop g = false := by
  match g, h with
  | .unlocker :: _, _ => rfl

theorem StoreInv.restoreThreadOk {tm : ThreadManagerData} {F U : List Nat} {live : Live S}
    {active : Bool} (hs : StoreInv tm F U) (t : ThreadId) :
    restoreThreadOk t ⟨tm, live, active⟩ := by
  have hv := hs.lazy_valid
  unfold EmbeddableV8.restoreThreadOk
  split
  · rename_i hl
    have h₁ : tm.lazilyArchivedThreadState.isSome = true := by rw [← hv, hl]; rfl
    obtain ⟨p, hp⟩ := Option.isSome_iff_exists.1 h₁
    exact ⟨by simp [hp], by rw [hp]; exact (hs.lazy_state t p hl hp).1⟩
  · exact fun h => hv ▸ h

namespace Inv

variable {w : World S} (hi : Inv w)
include hi

theorem isLocked_of_ownsLock {t : ThreadId} (h : (w.threads t).ownsLock = true) :
    w.ctx.tm.isLockedByCurrentThread t = true := by
  simpa [ThreadManagerData.isLockedByCurrentThread] using (hi.agrees t).owner.2 h

theorem archiveThreadOk {t : ThreadId} (ht : (w.threads t).running = true)
    (hid : w.ctx.tm.threadIdKey t ≠ kInvalidId) : archiveThreadOk t w.ctx := by
  obtain ⟨F, U, hs⟩ := hi.store
  have hl := hi.lazy_none_of_running ht
  exact ⟨hl, hi.key_none_of_running ht, hs.getFree_id (hs.lazy_none_of hl), hid⟩

end Inv

/-- `mutex_owner_` names a thread only while it holds `mutex_`; so `IsLockedByCurrentThread()`
is true for at most one thread, and `Locker::Locker` takes its nested path only in the thread
that holds the mutex. -/
def World.OwnerHoldsMutex (w : World S) : Prop :=
  (∀ t, w.ctx.tm.isLockedByCurrentThread t = true →
    w.ctx.tm.mutex = some t ∧ (w.threads t).holdsMutex = true) ∧
  (∀ t u, w.ctx.tm.isLockedByCurrentThread t = true →
    w.ctx.tm.isLockedByCurrentThread u = true → t = u) ∧
  ∀ t, ((w.next (.lockerEnter t)).threads t).pc = .assignId false true → w.ctx.tm.mutex = some t

theorem ownerHoldsMutex_of_reachable {w : World S} (hw : Reachable w) : w.OwnerHoldsMutex := by
  have hi := hw.inv
  have howner : ∀ t, w.ctx.tm.isLockedByCurrentThread t = true → w.ctx.tm.mutexOwner = some t :=
    fun t h => by simpa [ThreadManagerData.isLockedByCurrentThread] using h
  have hmutex : ∀ t, w.ctx.tm.isLockedByCurrentThread t = true → w.ctx.tm.mutex = some t :=
    fun t h => hi.mutex_of_owner (howner t h)
  refine ⟨fun t h => ⟨hmutex t h, (hi.agrees t).mutex.1 (hmutex t h)⟩,
    fun t u ht hu => Option.some.inj ((howner t ht).symm.trans (howner u hu)), fun t h => ?_⟩
  simp only [World.next] at h
  split at h
  · exact hmutex t ‹_›
  · simp at h

theorem ownerHoldsMutex_handOff :
    Reachable (handOff.foldl World.next (World.init Subsystems.word)) ∧
      (handOff.foldl World.next (World.init Subsystems.word)).ctx.tm.mutex = some 1 ∧
      (handOff.foldl World.next (World.init Subsystems.word)).ctx.tm.mutexOwner = some 1 ∧
      (handOff.foldl World.next (World.init Subsystems.word)).OwnerHoldsMutex :=
  have h := run_handOff
  ⟨h.2.1.reachable, h.2.2.2.1, h.2.2.2.2.1, ownerHoldsMutex_of_reachable h.2.1.reachable⟩

/-- The `ASSERT`s on the path of step `e` hold, and a `Locker` that takes the lock is marked
non-top-level exactly when its thread has archived state. -/
def World.StepChecked (w : World S) (e : Event S) : Prop :=
  w.AssertsHold e ∧ ∀ t, e = .proceed t → (w.threads t).pc = .restore .locker →
    ((w.next e).threads t).pc = .assignId true !(w.ctx.tm.isArchived t)

/-- In a run where no `++last_id_` overflows, every step finds its `ASSERT`s true. -/
theorem stepChecked_of_noOverflow {w : World S} (hw : ReachableNoOverflow w) {e : Event S}
    (he : w.Enabled e) (hno : w.NoIdOverflow e) : w.StepChecked e := by
  have hi := hw.reachable.inv
  have hid := hw.idInv
  obtain ⟨F, U, hs⟩ := hi.store
  cases e with
  | lockerEnter t => exact ⟨trivial, fun _ h => nomatch h⟩
  | lockerExit t =>
    obtain ⟨hpc, hl⟩ := he
    have hrun : (w.threads t).running = true := by simp [ThreadCtl.running, hpc, hl]
    refine ⟨⟨hi.isLocked_of_ownsLock (ThreadCtl.ownsLock_of_running hrun), ?_⟩,
      fun _ h => nomatch h⟩
    split
    · exact hi.archiveThreadOk hrun (hid.has_id t (by simp [*]))
    · trivial
  | unlockerEnter t =>
    obtain ⟨hpc, hl⟩ := he
    have hrun : (w.threads t).running = true := by simp [ThreadCtl.running, hpc, hl]
    have hg : (w.threads t).guards ≠ [] := fun h => by simp [h] at hl
    exact ⟨⟨hi.isLocked_of_ownsLock (ThreadCtl.ownsLock_of_running hrun),
      hi.archiveThreadOk hrun (hid.has_id t hg)⟩, fun _ h => nomatch h⟩
  | unlockerExit t =>
    obtain ⟨hpc, hl⟩ := he
    have hown : (w.threads t).ownsLock = false := by
      simp only [ThreadCtl.ownsLock, hpc, lockerOnTop_of_unlockerOnTop hl]
    refine ⟨?_, fun _ h => nomatch h⟩
    show w.ctx.tm.isLockedByCurrentThread t = false
    cases h : w.ctx.tm.isLockedByCurrentThread t
    · rfl
    · have := (hi.agrees t).owner.1 (by simpa [ThreadManagerData.isLockedByCurrentThread] using h)
      rw [hown] at this
      cases this
  | proceed t =>
    refine ⟨?_, fun u hu hr => ?_⟩
    · simp only [World.AssertsHold]
      split
      · exact hs.restoreThreadOk t
      · rename_i h tl hc
        have hl : w.ctx.tm.isLockedByCurrentThread t = true :=
          hi.isLocked_of_ownsLock (by simp [ThreadCtl.ownsLock, hc])
        refine ⟨hl, fun hn => ⟨hl, ?_⟩⟩
        have := hno h tl hc hn
        have := hid.lastId_nonneg
        unfold intSucc; split <;> omega
      · trivial
    · cases hu
      have hk := (hs.restoreThread t).2.2.2
      simp only [World.next, hr, hk, ThreadManagerData.isArchived]
      cases h : (w.ctx.tm.threadStateKey t).isSome <;> simp [h]
  | run t f => exact ⟨trivial, fun _ h => nomatch h⟩
  | terminateExecution t n => exact ⟨trivial, fun _ h => nomatch h⟩

theorem stepChecked_handOff :
    ReachableNoOverflow (handOff.foldl World.next (World.init Subsystems.word)) ∧
      (handOff.foldl World.next (World.init Subsystems.word)).Enabled (.unlockerEnter 1) ∧
      (handOff.foldl World.next (World.init Subsystems.word)).NoIdOverflow (.unlockerEnter 1) ∧
      (handOff.foldl World.next (World.init Subsystems.word)).StepChecked (.unlockerEnter 1) :=
  have h := run_handOff
  have he : (handOff.foldl World.next (World.init Subsystems.word)).Enabled (.unlockerEnter 1) := by
    rw [World.Enabled, h.2.2.1]; exact ⟨rfl, rfl⟩
  ⟨h.2.1, he, trivial, stepChecked_of_noOverflow h.2.1 he trivial⟩

/-- Once `last_id_` has wrapped, the thread whose `AssignId` got `0` enters an `Unlocker`:
`ArchiveThread` stamps its state with `CurrentId()`, which is `kInvalidId`, and
`ASSERT(state->id() != kInvalidId)` fails. -/
theorem archiveThread_assert_fails_after_wrap :
    ∃ w : World Subsystems.word, Reachable w ∧ w.Enabled (.unlockerEnter (2 ^ 32 - 1)) ∧
      ¬ w.AssertsHold (.unlockerEnter (2 ^ 32 - 1)) := by
  obtain ⟨w, hw, ht, hid⟩ := exists_wrapped_id
  exact ⟨w, hw, by rw [World.Enabled, ht]; exact ⟨rfl, rfl⟩, fun h => h.2.2.2.2 hid⟩

end EmbeddableV8
