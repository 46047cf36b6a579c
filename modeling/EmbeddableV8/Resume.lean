import EmbeddableV8.Lists
set_option autoImplicit false

namespace EmbeddableV8

variable {S : Subsystems}

namespace Context

variable (c : Context S) (t : ThreadId)

/-- The records thread `t` will resume with. -/
def saved : Live S :=
  match c.tm.threadStateKey t with
  | none => S.blank
  | some p =>
    if c.tm.lazilyArchivedThread = some t then c.live
    else restoreAll S (restoreOrder S) (c.tm.heap p).data 0 S.blank

/-- `t`'s `RestoreThread` will call `StackGuard::TerminateExecution`: its state is committed
and marked. -/
def terminateOnResume : Bool :=
  match c.tm.threadStateKey t with
  | none => false
  | some p => c.tm.lazilyArchivedThread != some t && (c.tm.heap p).terminateOnRestore

def resumed : Live S :=
  if c.terminateOnResume t then
    Function.update (c.saved t) .stackGuard (S.terminateExecution (c.saved t .stackGuard))
  else c.saved t

variable {c t}

theorem saved_congr (c' : Context S) (hk : c'.tm.threadStateKey t = c.tm.threadStateKey t)
    (hl : c'.tm.lazilyArchivedThread = some t ↔ c.tm.lazilyArchivedThread = some t)
    (hlive : c.tm.lazilyArchivedThread = some t → c'.live = c.live)
    (hd : ∀ p, c.tm.threadStateKey t = some p → (c'.tm.heap p).data = (c.tm.heap p).data) :
    c'.saved t = c.saved t := by
  unfold saved
  rw [hk]
  split
  · rfl
  · rename_i p hp
    by_cases h : c.tm.lazilyArchivedThread = some t
    · rw [if_pos (hl.2 h), if_pos h, hlive h]
    · rw [if_neg (mt hl.1 h), if_neg h, hd p hp]

theorem saved_withLive (live : Live S) (hl : c.tm.lazilyArchivedThread ≠ some t) :
    ({ c with live := live } : Context S).saved t = c.saved t :=
  saved_congr _ rfl Iff.rfl (fun h => absurd h hl) fun _ _ => rfl

end Context

theorem saved_archiveThread_self (c : Context S) (t : ThreadId) :
    (archiveThread t c).saved t = c.live := by
  simp [Context.saved, archiveThread]

theorem getFree_data {tm : ThreadManagerData} {p : Nat} (hp : p < tm.fresh) :
    (tm.getFree.1.heap p).data = (tm.heap p).data := by
  unfold ThreadManagerData.getFree
  split
  · simp [Function.update_noteq (Nat.ne_of_lt hp)]
  · rfl

theorem restoreState_data (t : ThreadId) (q : Nat) (c : Context S) (r : Nat) :
    ((restoreState t q c).tm.heap r).data = (c.tm.heap r).data := by
  simp only [restoreState, Heap.linkInto_data, Heap.unlink_data, Heap.setId_data]
  split <;> simp

theorem stackGuard_mem_archiveOrder : Subsystem.stackGuard ∈ archiveOrder S := by
  unfold archiveOrder; split <;> simp

abbrev commitArchive (c : Context S) : Context S :=
  if c.tm.lazilyArchivedThread.isSome then eagerlyArchiveThread c else c

theorem saved_restoreOwnState {c : Context S} {t u : ThreadId} (hu : u ≠ t)
    (hl : c.tm.lazilyArchivedThread = none) : (restoreOwnState u c).1.saved t = c.saved t := by
  unfold restoreOwnState
  split
  · exact Context.saved_withLive _ (by simp [hl])
  · exact Context.saved_congr _ (by simp [restoreState, Function.update_noteq hu.symm]) Iff.rfl
      (by simp [hl]) fun _ _ => restoreState_data _ _ _ _

namespace StoreInv

variable {c : Context S} {F U : List Nat} (hs : StoreInv c.tm F U)
include hs

theorem key_lt_fresh {t : ThreadId} {p : Nat} (hk : c.tm.threadStateKey t = some p) :
    p < c.tm.fresh := by
  refine (hs.mem_cells ?_).2
  rcases hs.key_mem t p hk with h | ⟨-, h⟩ <;> simp [h]

theorem lazy_state_of {v : ThreadId} (hv : c.tm.lazilyArchivedThread = some v) :
    ∃ s, c.tm.lazilyArchivedThreadState = some s ∧ c.tm.threadStateKey v = some s := by
  obtain ⟨s, hs'⟩ := Option.isSome_iff_exists.1 (by rw [← hs.lazy_valid, hv]; rfl :
    c.tm.lazilyArchivedThreadState.isSome = true)
  exact ⟨s, hs', (hs.lazy_state v s hv hs').1⟩

theorem saved_archiveThread_other {t u : ThreadId} (hu : u ≠ t)
    (hl : c.tm.lazilyArchivedThread = none) :
    (EmbeddableV8.archiveThread u c).saved t = c.saved t :=
  Context.saved_congr _ (by simp [EmbeddableV8.archiveThread, Function.update_noteq hu.symm])
    (by simp [EmbeddableV8.archiveThread, hl, hu]) (by simp [hl])
    fun p hp => by simp [EmbeddableV8.archiveThread, getFree_data (hs.key_lt_fresh hp)]

theorem saved_eagerlyArchiveThread_self {t : ThreadId} (hl : c.tm.lazilyArchivedThread = some t)
    {k : Subsystem} (hk : k ∈ archiveOrder S) :
    (EmbeddableV8.eagerlyArchiveThread c).saved t k = c.saved t k := by
  obtain ⟨p, hp, hkey⟩ := hs.lazy_state_of hl
  simp only [Context.saved, EmbeddableV8.eagerlyArchiveThread, hp, hkey, hl, if_true]
  simp [restoreOrder_eq, restoreAll_archiveAll S _ (archiveOrder_nodup S), hk]

theorem ne_lazy_state {t v : ThreadId} {p s : Nat} (hv : c.tm.lazilyArchivedThread = some v)
    (hvt : v ≠ t) (hk : c.tm.threadStateKey t = some p)
    (hs' : c.tm.lazilyArchivedThreadState = some s) : p ≠ s := by
  rintro rfl
  exact hvt (hs.key_inj v t p (hs.lazy_state v p hv hs').1 hk)

theorem eagerlyArchiveThread_heap_other {t v : ThreadId} {p : Nat}
    (hv : c.tm.lazilyArchivedThread = some v) (hvt : v ≠ t) (hk : c.tm.threadStateKey t = some p) :
    ((EmbeddableV8.eagerlyArchiveThread c).tm.heap p).data = (c.tm.heap p).data ∧
      ((EmbeddableV8.eagerlyArchiveThread c).tm.heap p).terminateOnRestore =
        (c.tm.heap p).terminateOnRestore := by
  obtain ⟨s, hs', -⟩ := hs.lazy_state_of hv
  have hps := hs.ne_lazy_state hv hvt hk hs'
  simp [EmbeddableV8.eagerlyArchiveThread, hs', hps]

theorem saved_commitLazy (t : ThreadId) {k : Subsystem} (hk : k ∈ archiveOrder S) :
    (commitArchive c).saved t k = c.saved t k := by
  unfold commitArchive
  split
  · rename_i h
    obtain ⟨v, hv⟩ := Option.isSome_iff_exists.1 h
    by_cases hvt : v = t
    · subst hvt
      exact hs.saved_eagerlyArchiveThread_self hv hk
    · refine congrFun (Context.saved_congr _
        (by simp [EmbeddableV8.eagerlyArchiveThread]; split <;> rfl) ?_
        (fun h => absurd (hv.symm.trans h) (by simpa using hvt))
        fun p hp => (hs.eagerlyArchiveThread_heap_other hv hvt hp).1) k
      obtain ⟨s, hs', -⟩ := hs.lazy_state_of hv
      simp [EmbeddableV8.eagerlyArchiveThread, hs', hv, hvt]
  · rfl

theorem saved_restoreThread {t u : ThreadId} (hu : u ≠ t) {k : Subsystem}
    (hk : k ∈ archiveOrder S) : (EmbeddableV8.restoreThread u c).1.saved t k = c.saved t k := by
  unfold EmbeddableV8.restoreThread
  split
  · rename_i hl
    split
    · rfl
    · exact congrFun (Context.saved_congr _
        (by simp [EmbeddableV8.reclaimLazy, Function.update_noteq hu.symm])
        (by simp [EmbeddableV8.reclaimLazy, hl, hu]) (fun h => by simp [hl, hu] at h)
        fun _ _ => by simp [EmbeddableV8.reclaimLazy]) k
  · obtain ⟨F', U', hs', hl', hk'⟩ := hs.commitLazy
    rw [saved_restoreOwnState hu hl']
    exact hs.saved_commitLazy t hk

theorem restoreThread_committed {t : ThreadId} {p : Nat} (hl : c.tm.lazilyArchivedThread ≠ some t)
    (hk : c.tm.threadStateKey t = some p) :
    (EmbeddableV8.restoreThread t c).1 = EmbeddableV8.restoreState t p (commitArchive c) := by
  obtain ⟨_, _, -, -, hk₁⟩ := hs.commitLazy
  simp only [EmbeddableV8.restoreThread, if_neg hl, EmbeddableV8.restoreOwnState]
  rw [hk₁, hk]

theorem commitArchive_heap {t : ThreadId} {p : Nat} (hl : c.tm.lazilyArchivedThread ≠ some t)
    (hk : c.tm.threadStateKey t = some p) :
    ((commitArchive c).tm.heap p).data = (c.tm.heap p).data ∧
      ((commitArchive c).tm.heap p).terminateOnRestore = (c.tm.heap p).terminateOnRestore := by
  unfold commitArchive
  split
  · rename_i h
    obtain ⟨v, hv⟩ := Option.isSome_iff_exists.1 h
    exact hs.eagerlyArchiveThread_heap_other hv (fun h => hl (by rw [← h]; exact hv)) hk
  · exact ⟨rfl, rfl⟩

end StoreInv

/-- Step `e` is thread `t`'s `ArchiveThread`: an `Unlocker`'s constructor, or the destructor of
a `Locker` that took the lock and is not top-level. -/
def World.Archives (w : World S) (t : ThreadId) (e : Event S) : Prop :=
  e = .unlockerEnter t ∨ e = .lockerExit t ∧ ∃ g, (w.threads t).guards = .locker true false :: g

def World.Resumes (w : World S) (t : ThreadId) (e : Event S) : Prop :=
  e = .proceed t ∧ ∃ k, (w.threads t).pc = .restore k

theorem ThreadCtl.ne_of_running_of_parked {c d : ThreadCtl} (hc : c.running = true)
    (hd : d.parked = true) : c ≠ d := by
  rintro rfl
  rw [ThreadCtl.parked_of_running hc] at hd
  cases hd

namespace Inv

variable {w : World S} (hi : Inv w)
include hi

theorem saved_next {t : ThreadId} (hp : (w.threads t).parked = true) {e : Event S}
    (he : w.Enabled e) (hne : ¬ w.Resumes t e) :
    (w.next e).ctx.tm.threadStateKey t = w.ctx.tm.threadStateKey t ∧
      ∀ k ∈ archiveOrder S, (w.next e).ctx.saved t k = w.ctx.saved t k := by
  obtain ⟨F, U, hs⟩ := hi.store
  cases e with
  | lockerEnter u =>
    simp only [World.next]
    split <;> exact ⟨rfl, fun _ _ => rfl⟩
  | lockerExit u =>
    obtain ⟨hpc, hl⟩ := he
    have hrun : (w.threads u).running = true := by simp [ThreadCtl.running, hpc, hl]
    have hut : u ≠ t := fun h => ThreadCtl.ne_of_running_of_parked hrun hp (by rw [h])
    have hln := hi.lazy_none_of_running hrun
    simp only [World.next]
    split
    · exact ⟨rfl, fun _ _ => congrFun (Context.saved_withLive _ (by simp [hln])) _⟩
    · exact ⟨by simp [archiveThread, Function.update_noteq hut.symm],
        fun _ _ => by rw [World.withThread_ctx, hs.saved_archiveThread_other hut hln]⟩
    · exact ⟨rfl, fun _ _ => rfl⟩
    · exact ⟨rfl, fun _ _ => rfl⟩
  | unlockerEnter u =>
    obtain ⟨hpc, hl⟩ := he
    have hrun : (w.threads u).running = true := by simp [ThreadCtl.running, hpc, hl]
    have hut : u ≠ t := fun h => ThreadCtl.ne_of_running_of_parked hrun hp (by rw [h])
    exact ⟨by simp [World.next, archiveThread, Function.update_noteq hut.symm], fun _ _ => by
      simp only [World.next, World.withThread_ctx]
      rw [hs.saved_archiveThread_other hut (hi.lazy_none_of_running hrun)]⟩
  | unlockerExit u => exact ⟨rfl, fun _ _ => rfl⟩
  | proceed u =>
    simp only [World.next]
    split
    · exact ⟨rfl, fun _ _ => rfl⟩
    · exact ⟨rfl, fun _ _ => rfl⟩
    · exact ⟨rfl, fun _ _ => rfl⟩
    · rename_i hpc
      have hut : u ≠ t := by rintro rfl; exact hne ⟨rfl, _, hpc⟩
      obtain ⟨-, hl', hk', -⟩ := hs.restoreThread u
      have hkey : (restoreThread u w.ctx).1.tm.threadStateKey t = w.ctx.tm.threadStateKey t := by
        rw [hk', Function.update_noteq hut.symm]
      split
      · exact ⟨hkey, fun _ hk => hs.saved_restoreThread hut hk⟩
      · exact ⟨hkey, fun _ hk => by
          exact (congrFun (Context.saved_withLive _ (by simp [hl'])) _).trans
            (hs.saved_restoreThread hut hk)⟩
    · rename_i hpc
      have hut : u ≠ t := by rintro rfl; exact hne ⟨rfl, _, hpc⟩
      obtain ⟨-, -, hk', -⟩ := hs.restoreThread u
      exact ⟨by rw [World.withThread_ctx]; simp [hk', Function.update_noteq hut.symm],
        fun _ hk => hs.saved_restoreThread hut hk⟩
    · rename_i h tl hpc
      have hrun : (w.threads u).running = true := by simp [ThreadCtl.running, hpc]
      have hln := hi.lazy_none_of_running hrun
      exact ⟨by simp, fun _ _ => by
        exact congrFun (Context.saved_congr (assignId u w.ctx) (by simp) (by simp) (by simp [hln])
          fun _ _ => by unfold assignId; split <;> rfl) _⟩
    · exact ⟨rfl, fun _ _ => rfl⟩
    · exact ⟨rfl, fun _ _ => rfl⟩
  | run u f =>
    have hrun := hi.running_of_holder he.1 he.2
    exact ⟨rfl, fun _ _ =>
      congrFun (Context.saved_withLive _ (by simp [hi.lazy_none_of_running hrun])) _⟩
  | terminateExecution u n =>
    refine ⟨rfl, fun _ _ => congrFun (Context.saved_congr (c := w.ctx)
      (EmbeddableV8.terminateExecution n w.ctx) rfl Iff.rfl (fun _ => rfl) fun p _ => ?_) _⟩
    simp only [EmbeddableV8.terminateExecution, foldl_markTerminate]
    split <;> rfl

theorem released_commitArchive {t : ThreadId} (hres : w.Resumes t (.proceed t)) :
    ∀ k ∈ freeOrder S, (commitArchive w.ctx).live k = S.blank k := by
  obtain ⟨-, r, hpc⟩ := hres
  obtain ⟨F, U, hs⟩ := hi.store
  intro k hk
  unfold commitArchive
  split
  · rename_i h
    obtain ⟨v, hv⟩ := Option.isSome_iff_exists.1 h
    obtain ⟨s, hs', -⟩ := hs.lazy_state_of hv
    simp [eagerlyArchiveThread, hs', archiveAll_live, ((freeOrder_sub S).1 hk).1]
  · rename_i h
    refine hi.released (Option.not_isSome_iff_eq_none.1 h) (fun u => ?_) k hk
    by_cases hu : u = t
    · subst hu; simp [ThreadCtl.running, hpc]
    · exact hi.not_running_of_holds (by simp [ThreadCtl.holdsMutex, hpc]) hu

theorem live_fresh {t : ThreadId} (hres : w.Resumes t (.proceed t))
    (hk : w.ctx.tm.threadStateKey t = none) :
    ∀ k ∈ freeOrder S, k ≠ .stackGuard → (w.next (.proceed t)).ctx.live k = S.blank k := by
  obtain ⟨F, U, hs⟩ := hi.store
  have hl : w.ctx.tm.lazilyArchivedThread ≠ some t := fun h => by
    obtain ⟨s, -, hks⟩ := hs.lazy_state_of h
    rw [hk] at hks; cases hks
  obtain ⟨_, _, -, -, hk₁⟩ := hs.commitLazy
  have hrt : restoreThread t w.ctx = restoreOwnState t (commitArchive w.ctx) := by
    simp only [restoreThread, if_neg hl]
  have hko : (commitArchive w.ctx).tm.threadStateKey t = none := by rw [hk₁, hk]
  intro k hkf hks
  have hrel := hi.released_commitArchive hres k hkf
  obtain ⟨-, r, hpc⟩ := hres
  cases r <;> simp [World.next, hpc, hrt, restoreOwnState, hko, Function.update_noteq hks, hrel]

theorem next_resume_ctx {t : ThreadId} (hp : (w.threads t).parked = true)
    (hres : w.Resumes t (.proceed t)) : (w.next (.proceed t)).ctx = (restoreThread t w.ctx).1 := by
  obtain ⟨F, U, hs⟩ := hi.store
  obtain ⟨-, r, hpc⟩ := hres
  have hr := (hs.restoreThread t).2.2.2
  rw [(hi.agrees t).parked, hp] at hr
  cases r <;> simp [World.next, hpc, hr]

theorem live_resume {t : ThreadId} (hp : (w.threads t).parked = true)
    (hres : w.Resumes t (.proceed t)) :
    ∀ k ∈ archiveOrder S, (w.next (.proceed t)).ctx.live k = w.ctx.resumed t k := by
  obtain ⟨F, U, hs⟩ := hi.store
  obtain ⟨p, hkp⟩ := Option.isSome_iff_exists.1 ((hi.agrees t).parked.trans hp)
  rw [hi.next_resume_ctx hp hres]
  intro k hk
  by_cases hl : w.ctx.tm.lazilyArchivedThread = some t
  · obtain ⟨s, hs', -⟩ := hs.lazy_state_of hl
    simp [restoreThread, hl, hs', reclaimLazy, Context.resumed, Context.terminateOnResume,
      Context.saved, hkp]
  · have hd := hs.commitArchive_heap hl hkp
    have hL : ∀ k ∈ archiveOrder S, restoreAll S (restoreOrder S)
        ((commitArchive w.ctx).tm.heap p).data 0 (commitArchive w.ctx).live k = w.ctx.saved t k :=
      fun k hk => by
        rw [hd.1, restoreAll_congr_live S _ _ _ _ S.blank (by rwa [restoreOrder_eq])]
        simp [Context.saved, hkp, hl]
    have hsg := stackGuard_mem_archiveOrder (S := S)
    rw [hs.restoreThread_committed hl hkp]
    simp only [restoreState, Context.resumed, Context.terminateOnResume, hkp, hd.2, hl]
    by_cases hks : k = .stackGuard
    · subst hks
      split <;> rename_i hf <;> simp [hL _ hsg, hl, hf]
    · split <;> rename_i hf <;> simp [Function.update_noteq hks, hL k hk, hl, hf]

theorem parked_next {t : ThreadId} (hp : (w.threads t).parked = true) {e : Event S}
    (he : w.Enabled e) (hne : ¬ w.Resumes t e) : ((w.next e).threads t).parked = true := by
  rw [← ((hi.next he).agrees t).parked, (hi.saved_next hp he hne).1, (hi.agrees t).parked, hp]

theorem archive {t : ThreadId} {e : Event S} (he : w.Enabled e) (ha : w.Archives t e) :
    ((w.next e).threads t).parked = true ∧ (w.next e).ctx.saved t = w.ctx.live := by
  rcases ha with rfl | ⟨rfl, g, hg⟩
  · exact ⟨by simp [World.next, ThreadCtl.parked], saved_archiveThread_self _ _⟩
  · have hok := (hi.agrees t).ok.1
    rw [hg] at hok
    obtain ⟨-, htl, -⟩ := hok
    refine ⟨?_, by
      simp only [World.next, hg, World.withThread_ctx]; exact saved_archiveThread_self _ _⟩
    simp only [World.next, hg, World.withThread_self, ThreadCtl.parked]
    simpa using htl.symm

end Inv

/-- `w` goes to `w'` by the enabled steps `es`, none of which is `t`'s `RestoreThread`. -/
def RunParked (t : ThreadId) : World S → List (Event S) → World S → Prop
  | w, [], w' => w' = w
  | w, e :: es, w' => w.Enabled e ∧ ¬ w.Resumes t e ∧ RunParked t (w.next e) es w'

theorem RunParked.saved {t : ThreadId} {w w' : World S} {es : List (Event S)} (hi : Inv w)
    (hp : (w.threads t).parked = true) (hr : RunParked t w es w') :
    Inv w' ∧ (w'.threads t).parked = true ∧
      ∀ k ∈ archiveOrder S, w'.ctx.saved t k = w.ctx.saved t k := by
  induction es generalizing w with
  | nil =>
    obtain rfl : w' = w := hr
    exact ⟨hi, hp, fun _ _ => rfl⟩
  | cons e es ih =>
    obtain ⟨he, hne, hr⟩ := hr
    obtain ⟨hi'', hp'', hsv'⟩ := ih (hi.next he) (hi.parked_next hp he hne) hr
    exact ⟨hi'', hp'', fun k hk => (hsv' k hk).trans ((hi.saved_next hp he hne).2 k hk)⟩

end EmbeddableV8
