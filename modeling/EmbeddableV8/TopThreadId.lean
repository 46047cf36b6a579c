import EmbeddableV8.Termination
set_option autoImplicit false

namespace EmbeddableV8

variable {S : Subsystems}

theorem RunParked.threadIdKey {t : ThreadId} {w w' : World S} {es : List (Event S)}
    (hi : Inv w) (hp : (w.threads t).parked = true) (hr : RunParked t w es w') :
    w'.ctx.tm.threadIdKey t = w.ctx.tm.threadIdKey t := by
  induction es generalizing w with
  | nil =>
    obtain rfl : w' = w := hr
    rfl
  | cons e es ih =>
    obtain ⟨he, hne, hr⟩ := hr
    rw [ih (hi.next he) (hi.parked_next hp he hne) hr,
      threadIdKey_next he fun h tl hpc => by simp [ThreadCtl.parked, hpc] at hp]

theorem threadIdKey_archive {w : World S} {t : ThreadId} {e : Event S} (he : w.Enabled e)
    (ha : w.Archives t e) : (w.next e).ctx.tm.threadIdKey = w.ctx.tm.threadIdKey := by
  rcases next_ids he with hk | ⟨u, h, tl, rfl, -⟩
  · exact hk.2.1
  · rcases ha with h | ⟨h, -⟩ <;> cases h

/-- The live `Top` thread id agrees with `CurrentId()` right after the `AssignId` that gives a
thread its id; and a thread that parks with the two agreeing resumes with them agreeing, its
`Top` record coming back from its archive and its id unchanged while it is parked. -/
theorem topThreadId_tracks_currentId :
    (∀ (w : World S) (t : ThreadId) (h tl : Bool), Reachable w →
      (w.threads t).pc = .assignId h tl → w.ctx.tm.hasId t = false →
      S.threadId ((w.next (.proceed t)).ctx.live .top) =
        (w.next (.proceed t)).ctx.tm.threadIdKey t) ∧
    ∀ (w w' : World S) (t : ThreadId) (e : Event S) (es : List (Event S)), Reachable w →
      w.Enabled e → w.Archives t e → RunParked t (w.next e) es w' → w'.Resumes t (.proceed t) →
      S.threadId (w.ctx.live .top) = w.ctx.tm.threadIdKey t →
      S.threadId ((w'.next (.proceed t)).ctx.live .top) =
        (w'.next (.proceed t)).ctx.tm.threadIdKey t := by
  refine ⟨fun w t h tl hw hpc hid => ?_, fun w w' t e es hw he ha hr hres htop => ?_⟩
  · have hr := hw.lastId_range
    simp only [World.next, hpc, World.withThread_ctx, EmbeddableV8.assignId, hid]
    simp only [Bool.false_eq_true, if_false, Function.update_same]
    exact S.threadId_setThreadId _ _ (by unfold intSucc; split <;> omega)
      (by unfold intSucc; split <;> omega)
  · have hi := hw.inv
    obtain ⟨hp, hsv₁⟩ := hi.archive he ha
    obtain ⟨hi', hp', hsv⟩ := RunParked.saved (hi.next he) hp hr
    have htop' : (w'.next (.proceed t)).ctx.live .top = w.ctx.live .top := by
      rw [hi'.live_resume hp' hres _ (by unfold archiveOrder; split <;> simp), Context.resumed]
      have : w'.ctx.saved t .top = w.ctx.live .top := by
        rw [hsv _ (by unfold archiveOrder; split <;> simp), hsv₁]
      split <;> simp [this]
    obtain ⟨-, r, hpc⟩ := hres
    rw [htop', htop, threadIdKey_next (w := w') (e := .proceed t)
      ⟨by simp [hpc], by simp [hpc, Pc.waiting]⟩ (fun h tl => by simp [hpc]),
      RunParked.threadIdKey (hi.next he) hp hr, congrFun (threadIdKey_archive he ha) t]

theorem topThreadId_tracks_currentId_runs :
    (∃ w : World Subsystems.word, Reachable w ∧ (w.threads 0).pc = .assignId true true ∧
      w.ctx.tm.hasId 0 = false ∧
      Subsystems.word.threadId ((w.next (.proceed 0)).ctx.live .top) =
        (w.next (.proceed 0)).ctx.tm.threadIdKey 0) ∧
    (∃ (w w' : World Subsystems.word), Reachable w ∧ w.Enabled (.unlockerEnter 0) ∧
      w.Archives 0 (.unlockerEnter 0) ∧
      RunParked 0 (w.next (.unlockerEnter 0))
        [.proceed 0, .proceed 0, .unlockerExit 0, .proceed 0, .proceed 0] w' ∧
      w'.Resumes 0 (.proceed 0) ∧
      Subsystems.word.threadId (w.ctx.live .top) = w.ctx.tm.threadIdKey 0 ∧
      Subsystems.word.threadId ((w'.next (.proceed 0)).ctx.live .top) =
        (w'.next (.proceed 0)).ctx.tm.threadIdKey 0) ∧
    ∃ (w w' : World Subsystems.word), Reachable w ∧ w.Enabled (.unlockerEnter 0) ∧
      w.Archives 0 (.unlockerEnter 0) ∧
      RunParked 0 (w.next (.unlockerEnter 0))
        [.proceed 0, .proceed 0, .lockerEnter 1, .proceed 1, .proceed 1, .proceed 1, .proceed 1,
          .lockerExit 1, .proceed 1, .proceed 1, .unlockerExit 0, .proceed 0, .proceed 0] w' ∧
      w'.Resumes 0 (.proceed 0) ∧
      Subsystems.word.threadId (w.ctx.live .top) = w.ctx.tm.threadIdKey 0 ∧
      Subsystems.word.threadId ((w'.next (.proceed 0)).ctx.live .top) =
        (w'.next (.proceed 0)).ctx.tm.threadIdKey 0 := by
  let enter : List (Event Subsystems.word) := [.lockerEnter 0, .proceed 0, .proceed 0, .proceed 0]
  let locker : List (Event Subsystems.word) := enter ++ [.proceed 0]
  let w := locker.foldl World.next (World.init _)
  have h₁ : Run (World.init _) enter (enter.foldl World.next (World.init _)) ∧
      ((enter.foldl World.next (World.init _)).threads 0).pc = .assignId true true ∧
      (enter.foldl World.next (World.init _)).ctx.tm.hasId 0 = false ∧
      Run (World.init _) locker w ∧ w.Enabled (.unlockerEnter 0) ∧
      Subsystems.word.threadId (w.ctx.live .top) = w.ctx.tm.threadIdKey 0 := by
    simp [w, enter, locker, Run, World.Enabled, World.next, World.withThread, World.withTm,
      World.init, ThreadManagerData.init, Pc.waiting, ThreadManagerData.isLockedByCurrentThread,
      restoreThread, restoreOwnState, EmbeddableV8.assignId, ThreadManagerData.hasId, intSucc,
      Subsystems.word]
  have hw₁ := Reachable.run .init h₁.1
  have hw := Reachable.run .init h₁.2.2.2.1
  have hres : ∀ es ∈ ([[.proceed 0, .proceed 0, .unlockerExit 0, .proceed 0, .proceed 0],
      [.proceed 0, .proceed 0, .lockerEnter 1, .proceed 1, .proceed 1, .proceed 1, .proceed 1,
        .lockerExit 1, .proceed 1, .proceed 1, .unlockerExit 0, .proceed 0, .proceed 0]] :
        List (List (Event Subsystems.word))),
      ∃ w', RunParked 0 (w.next (.unlockerEnter 0)) es w' ∧ w'.Resumes 0 (.proceed 0) ∧
        Subsystems.word.threadId ((w'.next (.proceed 0)).ctx.live .top) =
          (w'.next (.proceed 0)).ctx.tm.threadIdKey 0 := by
    intro es hes
    have h₂ : RunParked 0 (w.next (.unlockerEnter 0)) es
          (es.foldl World.next (w.next (.unlockerEnter 0))) ∧
        (es.foldl World.next (w.next (.unlockerEnter 0))).Resumes 0 (.proceed 0) := by
      simp only [List.mem_cons, List.mem_singleton, List.not_mem_nil, or_false] at hes
      rcases hes with rfl | rfl <;>
        simp [w, locker, enter, RunParked, World.Resumes, World.Enabled, World.next,
          World.withThread, World.withTm, World.init, ThreadManagerData.init, Pc.waiting,
          ThreadManagerData.isLockedByCurrentThread, restoreThread, restoreOwnState,
          EmbeddableV8.assignId, ThreadManagerData.hasId, archiveThread,
          ThreadCtl.parked, intSucc, eagerlyArchiveThread, freeThreadResources,
          Function.update_apply]
    exact ⟨_, h₂.1, h₂.2, topThreadId_tracks_currentId.2 w _ 0 _ es hw h₁.2.2.2.2.1 (.inl rfl)
      h₂.1 h₂.2 h₁.2.2.2.2.2⟩
  obtain ⟨w₁', hp₁, hr₁, ht₁⟩ := hres _ (List.mem_cons_self _ _)
  obtain ⟨w₂', hp₂, hr₂, ht₂⟩ := hres _ (List.mem_cons_of_mem _ (List.mem_cons_self _ _))
  exact ⟨⟨_, hw₁, h₁.2.1, h₁.2.2.1,
      topThreadId_tracks_currentId.1 _ 0 true true hw₁ h₁.2.1 h₁.2.2.1⟩,
    ⟨w, w₁', hw, h₁.2.2.2.2.1, .inl rfl, hp₁, hr₁, h₁.2.2.2.2.2, ht₁⟩,
    w, w₂', hw, h₁.2.2.2.2.1, .inl rfl, hp₂, hr₂, h₁.2.2.2.2.2, ht₂⟩

theorem topThreadId_stale_after_reentry :
    ∃ w : World Subsystems.word, Reachable w ∧ w.threads 0 = ⟨[.locker true true], .idle⟩ ∧
      w.ctx.tm.mutex = some 0 ∧
      Subsystems.word.threadId (w.ctx.live .top) ≠ w.ctx.tm.threadIdKey 0 := by
  let es : List (Event Subsystems.word) := freshCycle 0 ++ freshCycle 1 ++
    [.lockerEnter 0, .proceed 0, .proceed 0, .proceed 0, .proceed 0]
  have h : Run (World.init _) es (es.foldl World.next (World.init _)) ∧
      (es.foldl World.next (World.init _)).threads 0 = ⟨[.locker true true], .idle⟩ ∧
      (es.foldl World.next (World.init _)).ctx.tm.mutex = some 0 ∧
      Subsystems.word.threadId ((es.foldl World.next (World.init _)).ctx.live .top) ≠
        (es.foldl World.next (World.init _)).ctx.tm.threadIdKey 0 := by
    simp [es, freshCycle, Run, World.Enabled, World.next,
      World.withThread, World.withTm, World.init, ThreadManagerData.init, Pc.waiting,
      ThreadManagerData.isLockedByCurrentThread, restoreThread, restoreOwnState,
      EmbeddableV8.assignId, ThreadManagerData.hasId, intSucc, freeThreadResources, freeAll_apply,
      freeOrder, Subsystems.word, Function.update_apply]
  exact ⟨_, Reachable.run .init h.1, h.2⟩

end EmbeddableV8
