import EmbeddableV8.Resume
set_option autoImplicit false

namespace EmbeddableV8

variable {S : Subsystems}

namespace Inv

variable {w : World S} (hi : Inv w)
include hi

theorem heap_terminateExecution_key {u t : ThreadId} {n : Int} {p : Nat}
    (he : w.Enabled (.terminateExecution u n)) (hk : w.ctx.tm.threadStateKey t = some p) :
    (w.next (.terminateExecution u n)).ctx.tm.heap p =
      if w.ctx.tm.threadIdKey t = n then { w.ctx.tm.heap p with terminateOnRestore := true }
      else w.ctx.tm.heap p := by
  obtain ⟨F, U, hs⟩ := hi.store
  have hpU := hs.key_inUse hk (by simp [hi.lazy_none_of_running (hi.running_of_holder he.1 he.2)])
  obtain ⟨t', hk', hid⟩ := hs.inUse_key p hpU
  obtain rfl := hs.key_inj t' t p hk' hk
  simp only [World.next, EmbeddableV8.terminateExecution, hs.inUseStates_eq, Option.getD_some,
    foldl_markTerminate, hpU, true_and, hid, eq_comm]

theorem heap_terminateExecution_other {u : ThreadId} {n : Int} {p : Nat}
    (hp : ∀ t, w.ctx.tm.threadStateKey t ≠ some p) :
    (w.next (.terminateExecution u n)).ctx.tm.heap p = w.ctx.tm.heap p := by
  obtain ⟨F, U, hs⟩ := hi.store
  have hpU : p ∉ U := fun h => by
    obtain ⟨t, hk, -⟩ := hs.inUse_key p h
    exact hp t hk
  simp [World.next, EmbeddableV8.terminateExecution, hs.inUseStates_eq, foldl_markTerminate, hpU]

theorem terminateOnResume_terminateExecution {u t : ThreadId} {n : Int}
    (he : w.Enabled (.terminateExecution u n)) (ht : (w.threads t).parked = true) :
    (w.next (.terminateExecution u n)).ctx.terminateOnResume t =
      (w.ctx.terminateOnResume t || decide (w.ctx.tm.threadIdKey t = n)) := by
  obtain ⟨p, hkp⟩ := Option.isSome_iff_exists.1 ((hi.agrees t).parked.trans ht)
  have hl := hi.lazy_none_of_running (hi.running_of_holder he.1 he.2)
  have hk' : (w.next (.terminateExecution u n)).ctx.tm.threadStateKey t = some p := hkp
  have hl' : (w.next (.terminateExecution u n)).ctx.tm.lazilyArchivedThread = none := hl
  simp only [Context.terminateOnResume, hk', hkp, hl', hl, hi.heap_terminateExecution_key he hkp]
  split <;> simp [*]

theorem parked_id_unique (hid : IdInv w) {t t' : ThreadId} (ht : (w.threads t).parked = true)
    (h : w.ctx.tm.threadIdKey t = w.ctx.tm.threadIdKey t') :
    t = t' := by
  obtain ⟨p, hkp⟩ := Option.isSome_iff_exists.1 ((hi.agrees t).parked.trans ht)
  exact hid.id_inj t t' h (hi.id_ne_of_key hid hkp)

theorem resume_frees {t : ThreadId} {p : Nat} (hk : w.ctx.tm.threadStateKey t = some p)
    (hres : w.Resumes t (.proceed t)) :
    (w.next (.proceed t)).ctx.tm.threadStateKey t = none ∧
      ((w.next (.proceed t)).ctx.tm.heap p).terminateOnRestore = false ∧
      ((w.next (.proceed t)).ctx.tm.heap p).id = kInvalidId := by
  obtain ⟨F, U, hs⟩ := hi.store
  rw [hi.next_resume_ctx (hi.parked_of_key hk) hres]
  refine ⟨by rw [(hs.restoreThread t).2.2.1]; simp, ?_⟩
  by_cases hl : w.ctx.tm.lazilyArchivedThread = some t
  · obtain ⟨s, hs', hks⟩ := hs.lazy_state_of hl
    obtain rfl : s = p := Option.some.inj (hks.symm.trans hk)
    have hf := (hs.lazy_state t s hl hs').2.2
    simp [restoreThread, hl, hs', reclaimLazy, hf]
  · rw [hs.restoreThread_committed hl hk]
    simp only [restoreState, Heap.linkInto_terminate, Heap.unlink_terminate, Heap.setId_terminate,
      Heap.linkInto_id, Heap.unlink_id, Heap.setId_id, if_true]
    split <;> simp [*]

end Inv

/-- Once `last_id_` has wrapped, threads `0` and `2^32` both carry the id `1`. Each parks in an
`Unlocker`, and thread `1`, holding the lock, calls `TerminateExecution(1)`: both parked threads
are marked, so both will be terminated on their next `RestoreThread`. -/
theorem terminateExecution_marks_two_threads_after_wrap :
    ∃ w : World Subsystems.word, Reachable w ∧ w.Enabled (.terminateExecution 1 1) ∧
      (w.threads 0).parked = true ∧ (w.threads (2 ^ 32)).parked = true ∧
      w.ctx.terminateOnResume 0 = false ∧ w.ctx.terminateOnResume (2 ^ 32) = false ∧
      (w.next (.terminateExecution 1 1)).ctx.terminateOnResume 0 = true ∧
      (w.next (.terminateExecution 1 1)).ctx.terminateOnResume (2 ^ 32) = true := by
  obtain ⟨w₁, hr₁, ht₁, htm₁⟩ := run_freshCycles (a := 0) (m := 0) (2 ^ 32 + 1)
    (w := World.init Subsystems.word) rfl rfl rfl (fun _ _ _ => rfl) (fun _ _ _ => rfl)
    (fun _ _ _ => rfl) toInt32_zero.symm
  let es : List (Event Subsystems.word) := [.lockerEnter (2 ^ 32), .proceed (2 ^ 32),
    .proceed (2 ^ 32), .proceed (2 ^ 32), .proceed (2 ^ 32), .unlockerEnter (2 ^ 32),
    .proceed (2 ^ 32), .proceed (2 ^ 32), .lockerEnter 0, .proceed 0, .proceed 0, .proceed 0,
    .proceed 0, .unlockerEnter 0, .proceed 0, .proceed 0, .lockerEnter 1, .proceed 1, .proceed 1,
    .proceed 1, .proceed 1]
  have h₁ : toInt32 4294967297 = 1 := by decide
  have h₂ : toInt32 1 = 1 := by decide
  have h₃ : toInt32 2 = 2 := by decide
  have h : Run w₁ es (es.foldl World.next w₁) ∧
      (es.foldl World.next w₁).Enabled (.terminateExecution 1 1) ∧
      ((es.foldl World.next w₁).threads 0).parked = true ∧
      ((es.foldl World.next w₁).threads (2 ^ 32)).parked = true ∧
      (es.foldl World.next w₁).ctx.terminateOnResume 0 = false ∧
      (es.foldl World.next w₁).ctx.terminateOnResume (2 ^ 32) = false ∧
      ((es.foldl World.next w₁).next (.terminateExecution 1 1)).ctx.terminateOnResume 0 = true ∧
      ((es.foldl World.next w₁).next (.terminateExecution 1 1)).ctx.terminateOnResume (2 ^ 32) =
        true := by
    simp [es, Run, World.Enabled, World.next,
      World.withThread, World.withTm, ht₁, htm₁, World.init, ThreadManagerData.init, Pc.waiting,
      ThreadManagerData.isLockedByCurrentThread, restoreThread, restoreOwnState,
      EmbeddableV8.assignId, ThreadManagerData.hasId, archiveThread, ThreadManagerData.getFree,
      ThreadCtl.parked, ThreadState.new, eagerlyArchiveThread, Context.terminateOnResume,
      EmbeddableV8.terminateExecution, ThreadManagerData.inUseStates, walk, nextState,
      markTerminate, Heap.unlink, Heap.linkInto, Function.update_apply, intSucc, h₁, h₂, h₃]
  exact ⟨_, (Reachable.run .init hr₁).run h.1, h.2⟩

end EmbeddableV8
