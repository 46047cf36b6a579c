import EmbeddableV8.RegExpStack
import EmbeddableV8.Lists
set_option autoImplicit false

/-!
`RegExpStack` in the runs of a context's guards: `RestoreThread` calls `ArchiveStack` and
`RestoreStack`, and a top-level `Locker`'s `FreeThreadResources` frees the stack.
-/

namespace EmbeddableV8

variable {S : Subsystems} (K : RegExpStackConstants)

/-- The `RegExpStack` steps of a step of the guards: `FreeThreadResources` at a top-level
`Locker`'s exit; in `RestoreThread`, off the lazy path, `ArchiveStack` of the thread whose
archive is pending and `RestoreStack` of the thread, if it has archived state. -/
def World.regExpOps (w : World S) : Event S → List RegExpThreadOp
  | .lockerExit t =>
    match (w.threads t).guards with
    | .locker true true :: _ => [.call .free]
    | _ => []
  | .proceed t =>
    match (w.threads t).pc with
    | .restore _ =>
      if w.ctx.tm.lazilyArchivedThread = some t then []
      else w.ctx.tm.lazilyArchivedThread.toList.map .archiveStack ++
        (w.ctx.tm.threadStateKey t).toList.map fun _ => .restoreStack t
    | _ => []
  | _ => []

def World.Quiet (w : World S) : Prop :=
  w.ctx.tm.lazilyArchivedThread = none ∧ ∀ u, (w.threads u).running = false

/-- Thread `t`'s state is committed to its buffer: it has one, and it is not the pending one. -/
def ThreadManagerData.Committed (tm : ThreadManagerData) (t : ThreadId) : Prop :=
  (tm.threadStateKey t).isSome ∧ tm.lazilyArchivedThread ≠ some t

structure RegExpWorld (S : Subsystems) where
  world : World S
  regExpStack : RegExpStackThreads

namespace RegExpWorld

inductive Event (S : Subsystems) where
  | step (e : EmbeddableV8.Event S)
  | call (t : ThreadId) (op : RegExpStackOp)

def init (heap₀ : CHeap) : RegExpWorld S := ⟨World.init S, ⟨⟨.empty K, heap₀⟩, []⟩⟩

variable (rw : RegExpWorld S)

def regExpOps : Event S → List RegExpThreadOp
  | .step e => rw.world.regExpOps e
  | .call _ op => [.call op]

def next (e : Event S) : RegExpWorld S where
  world := match e with
    | .step e => rw.world.next e
    | .call _ _ => rw.world
  regExpStack := regExpThreadRun K (rw.regExpOps e) rw.regExpStack

/-- Guard steps as `World` allows them; calls by the thread that runs, with `NewArray`
returning the address of no live array. -/
def Enabled : Event S → Prop
  | .step e => rw.world.Enabled e
  | .call t op => (rw.world.threads t).pc = .idle ∧ rw.world.ctx.tm.mutex = some t ∧
      AllocationsFresh K [op] rw.regExpStack.current

def Run : RegExpWorld S → List (Event S) → RegExpWorld S → Prop
  | rw, [], rw' => rw' = rw
  | rw, e :: es, rw' => rw.Enabled K e ∧ Run (rw.next K e) es rw'

end RegExpWorld

inductive RegExpReach (heap₀ : CHeap) : RegExpWorld S → Prop
  | init : RegExpReach heap₀ (RegExpWorld.init K heap₀)
  | step {rw : RegExpWorld S} {e : RegExpWorld.Event S} : RegExpReach heap₀ rw → rw.Enabled K e →
      RegExpReach heap₀ (rw.next K e)

/-- The `RegExpStack` state agrees with the guards: it keeps `SwitchInv`; `thread_local_` is
`ThreadLocal()` while no thread runs and no archive is pending; and the threads with an
archived record are those whose state is committed, each with one record. -/
structure RegExpRelated (heap₀ : CHeap) (rw : RegExpWorld S) : Prop where
  inv : SwitchInv K heap₀ rw.regExpStack
  quiet : rw.world.Quiet → rw.regExpStack.current.threadLocal = .empty K
  archived : ∀ t, (rw.regExpStack.archived.lookup t).isSome ↔ rw.world.ctx.tm.Committed t
  nodup : (rw.regExpStack.archived.map Prod.fst).Nodup

variable {K}

theorem Inv.switchesOk_regExpOps {w : World S} (hi : Inv w) {s : RegExpStackThreads}
    (hq : w.Quiet → s.current.threadLocal = .empty K) (e : Event S) :
    SwitchesOk K (w.regExpOps e) s := by
  cases e with
  | lockerExit t => simp only [World.regExpOps]; split <;> trivial
  | proceed t =>
    simp only [World.regExpOps]
    split
    · rename_i k hpc
      split
      · trivial
      · cases hl : w.ctx.tm.lazilyArchivedThread with
        | some u =>
          cases w.ctx.tm.threadStateKey t
          · trivial
          · exact ⟨rfl, trivial⟩
        | none =>
          cases w.ctx.tm.threadStateKey t with
          | none => trivial
          | some p =>
            refine ⟨hq ⟨hl, fun u => ?_⟩, trivial⟩
            by_cases hu : u = t
            · subst hu; simp [ThreadCtl.running, hpc]
            · exact hi.not_running_of_holds (by simp [ThreadCtl.holdsMutex, hpc]) hu
    · trivial
  | _ => trivial

theorem World.quiet_of_withThread {w : World S} {c : Context S} {t : ThreadId} {g : List Guard}
    {pc : Pc} (hl : c.tm.lazilyArchivedThread = w.ctx.tm.lazilyArchivedThread)
    (hr : ThreadCtl.running ⟨g, pc⟩ = false → (w.threads t).running = false)
    (hq : ({ w with ctx := c }.withThread t g pc).Quiet) : w.Quiet := by
  refine ⟨hl ▸ hq.1, fun u => ?_⟩
  by_cases hu : u = t
  · subst hu; exact hr (by simpa using hq.2 u)
  · simpa [World.withThread_of_ne _ _ _ _ hu] using hq.2 u

theorem World.not_quiet_of_running {w : World S} {t : ThreadId}
    (ht : (w.threads t).running = true) : ¬ w.Quiet :=
  fun hq => by simp [hq.2 t] at ht

theorem Inv.quiet_of_next {w : World S} (hi : Inv w) {e : Event S} (he : w.Enabled e)
    (hq : (w.next e).Quiet) : w.Quiet ∧ w.regExpOps e = [] ∨ w.regExpOps e = [.call .free] := by
  cases e with
  | lockerEnter t =>
    refine .inl ⟨?_, rfl⟩
    simp only [World.next] at hq
    split at hq
    · exact absurd hq (World.not_quiet_of_running (t := t) (by simp [ThreadCtl.running]))
    · rename_i hown
      refine World.quiet_of_withThread rfl (fun _ => ?_) hq
      cases h : (w.threads t).running
      · rfl
      · exact absurd (hi.isLocked_of_ownsLock (ThreadCtl.ownsLock_of_running h)) hown
  | lockerExit t =>
    obtain ⟨hpc, hl⟩ := he
    obtain ⟨h, tl, g, hg⟩ : ∃ h tl g, (w.threads t).guards = .locker h tl :: g := by
      match hgs : (w.threads t).guards, hl with
      | .locker h tl :: g, _ => exact ⟨h, tl, g, rfl⟩
    have hok := (hi.agrees t).ok.1
    rw [hg] at hok
    cases h
    · have hl' : lockerOnTop g = true := by simpa [GuardsOk] using hok.1
      cases tl <;> simp only [World.next, World.regExpOps, hg] at hq ⊢ <;>
        exact absurd hq (World.not_quiet_of_running (t := t) (by simp [ThreadCtl.running, hl']))
    · cases tl <;> simp only [World.next, World.regExpOps, hg] at hq ⊢
      · exact absurd hq.1 (by simp [archiveThread])
      · exact .inr trivial
  | unlockerEnter t => exact absurd hq.1 (by simp [World.next, archiveThread])
  | unlockerExit t =>
    obtain ⟨hpc, hl⟩ := he
    refine .inl ⟨World.quiet_of_withThread rfl (fun _ => ?_) hq, rfl⟩
    simp [ThreadCtl.running, hpc, lockerOnTop_of_unlockerOnTop hl]
  | proceed t =>
    have hq' := hq
    simp only [World.next] at hq'
    cases hpc : (w.threads t).pc with
    | idle => simp only [hpc] at hq'; exact .inl ⟨hq', by simp [World.regExpOps, hpc]⟩
    | restore k =>
      cases k <;> simp only [hpc] at hq'
      · split at hq' <;>
          exact absurd hq' (World.not_quiet_of_running (t := t) (by simp [ThreadCtl.running]))
      · have hl : lockerOnTop (w.threads t).guards = true := by
          have := (hi.agrees t).ok.2; simpa [ThreadCtl.Fits, hpc] using this
        exact absurd hq' (World.not_quiet_of_running (t := t) (by simp [ThreadCtl.running, hl]))
    | assignId h tl =>
      simp only [hpc] at hq'
      exact absurd hq' (World.not_quiet_of_running (t := t) (by simp [ThreadCtl.running]))
    | _ =>
      simp only [hpc] at hq'
      exact .inl ⟨World.quiet_of_withThread rfl (fun _ => by simp [ThreadCtl.running, hpc]) hq',
        by simp [World.regExpOps, hpc]⟩
  | run t f =>
    exact absurd hq (World.not_quiet_of_running (hi.running_of_holder he.1 he.2))
  | terminateExecution t n => exact .inl ⟨hq, rfl⟩

theorem lookup_erase_of_nodup {t : ThreadId} {tl : RegExpThreadLocal} :
    ∀ {l : List (ThreadId × RegExpThreadLocal)}, (l.map Prod.fst).Nodup → l.lookup t = some tl →
      ∀ u, (l.erase (t, tl)).lookup u = if u = t then none else l.lookup u
  | [], _, h, _ => by cases h
  | (k, x) :: l, hnd, h, u => by
    rw [List.map_cons, List.nodup_cons] at hnd
    by_cases hk : k = t
    · subst hk
      obtain rfl : x = tl := by simpa using h
      rw [List.erase_cons_head]
      by_cases hu : u = k
      · subst hu
        simp only [if_true, List.lookup_eq_none_iff]
        exact fun p hp => bne_iff_ne.2 fun h => hnd.1 (List.mem_map.2 ⟨p, hp, h.symm⟩)
      · simp [hu, List.lookup_cons, beq_false_of_ne hu]
    · have h' : l.lookup t = some tl := by
        simpa [List.lookup_cons, beq_false_of_ne (Ne.symm hk)] using h
      rw [List.erase_cons_tail (by simp [hk])]
      by_cases hu : u = k
      · subst hu; simp [List.lookup_cons, hk]
      · simp [List.lookup_cons, beq_false_of_ne hu, lookup_erase_of_nodup hnd.2 h' u]

theorem lookup_restoreStack {w : RegExpStackThreads} (hnd : (w.archived.map Prod.fst).Nodup)
    (t u : ThreadId) :
    (restoreStack t w).archived.lookup u = if u = t then none else w.archived.lookup u := by
  unfold restoreStack
  split
  · next tl h => exact lookup_erase_of_nodup hnd h u
  · next h => split_ifs with hu <;> simp only [hu, h]

theorem nodup_restoreStack {w : RegExpStackThreads} (hnd : (w.archived.map Prod.fst).Nodup)
    (t : ThreadId) : ((restoreStack t w).archived.map Prod.fst).Nodup := by
  unfold restoreStack
  split
  · exact ((List.erase_sublist _ _).map _).nodup hnd
  · exact hnd

theorem free_of_shaped {s : RegExpStackState} (hs : s.threadLocal.Shaped K) :
    (free K s).threadLocal = .empty K := by
  unfold free releaseAbove
  split
  · rfl
  · exact hs.resolve_right fun h => by omega

theorem committed_archiveThread {c : Context S} {t : ThreadId}
    (hl : c.tm.lazilyArchivedThread = none) (hk : c.tm.threadStateKey t = none) (u : ThreadId) :
    (archiveThread t c).tm.Committed u ↔ c.tm.Committed u := by
  by_cases hu : u = t
  · subst hu; simp [ThreadManagerData.Committed, archiveThread, hk]
  · simp [ThreadManagerData.Committed, archiveThread, hl, hu, Ne.symm hu]

theorem Inv.committed_next {w : World S} (hi : Inv w) {e : Event S} (he : w.Enabled e)
    (hne : ∀ t k, e = .proceed t → (w.threads t).pc ≠ .restore k) :
    (w.regExpOps e = [] ∨ w.regExpOps e = [.call .free]) ∧
      ∀ u, (w.next e).ctx.tm.Committed u ↔ w.ctx.tm.Committed u := by
  cases e with
  | lockerEnter t => exact ⟨.inl rfl, fun u => by simp only [World.next]; split <;> rfl⟩
  | lockerExit t =>
    obtain ⟨hpc, hl⟩ := he
    obtain ⟨h, tl, g, hg⟩ : ∃ h tl g, (w.threads t).guards = .locker h tl :: g := by
      match hgs : (w.threads t).guards, hl with
      | .locker h tl :: g, _ => exact ⟨h, tl, g, rfl⟩
    cases h <;> cases tl <;> simp only [World.next, World.regExpOps, hg]
    case true.false =>
      have hr : (w.threads t).running = true := by simp [ThreadCtl.running, hpc, hg]
      exact ⟨by simp, committed_archiveThread (hi.lazy_none_of_running hr)
        (hi.key_none_of_running hr)⟩
    all_goals exact ⟨by simp, fun _ => Iff.rfl⟩
  | unlockerEnter t =>
    have hr : (w.threads t).running = true := by simp [ThreadCtl.running, he.1, he.2]
    exact ⟨.inl rfl, committed_archiveThread (hi.lazy_none_of_running hr)
      (hi.key_none_of_running hr)⟩
  | unlockerExit t => exact ⟨.inl rfl, fun _ => Iff.rfl⟩
  | proceed t =>
    refine ⟨.inl ?_, fun u => ?_⟩ <;> cases hpc : (w.threads t).pc <;>
      simp only [World.regExpOps, World.next, hpc]
    all_goals first
      | exact absurd hpc (hne t _ rfl)
      | simp [ThreadManagerData.Committed]
  | run t f => exact ⟨.inl rfl, fun _ => Iff.rfl⟩
  | terminateExecution t n => exact ⟨.inl rfl, fun _ => Iff.rfl⟩

theorem lookup_restoreOps {w : World S} {F U : List Nat} (hs : StoreInv w.ctx.tm F U)
    {s : RegExpStackThreads} (ha : ∀ u, (s.archived.lookup u).isSome ↔ w.ctx.tm.Committed u)
    (hnd : (s.archived.map Prod.fst).Nodup) {t : ThreadId} {k : Resume}
    (hpc : (w.threads t).pc = .restore k) :
    (∀ u, ((regExpThreadRun K (w.regExpOps (.proceed t)) s).archived.lookup u).isSome ↔
      u ≠ t ∧ (w.ctx.tm.threadStateKey u).isSome) ∧
    ((regExpThreadRun K (w.regExpOps (.proceed t)) s).archived.map Prod.fst).Nodup := by
  simp only [World.regExpOps, hpc]
  split_ifs with hlt
  · refine ⟨fun u => ?_, hnd⟩
    rw [show regExpThreadRun K [] s = s from rfl, ha u]
    by_cases hu : u = t
    · subst hu; simp [ThreadManagerData.Committed, hlt]
    · simp [ThreadManagerData.Committed, hlt, hu, Ne.symm hu]
  set s₁ := regExpThreadRun K (w.ctx.tm.lazilyArchivedThread.toList.map .archiveStack) s with hs₁
  have h₁ : ∀ u, s₁.archived.lookup u =
      if w.ctx.tm.lazilyArchivedThread = some u then some s.current.threadLocal
      else s.archived.lookup u := by
    intro u
    cases hl : w.ctx.tm.lazilyArchivedThread with
    | none => simp [hs₁, hl, regExpThreadRun]
    | some v =>
      by_cases hu : u = v
      · subst hu; simp [hs₁, hl, regExpThreadRun, regExpThreadStep, archiveStack, List.lookup_cons]
      · simp [hs₁, hl, regExpThreadRun, regExpThreadStep, archiveStack, List.lookup_cons, hu,
          Ne.symm hu, beq_false_of_ne hu]
  have hnd₁ : (s₁.archived.map Prod.fst).Nodup := by
    cases hl : w.ctx.tm.lazilyArchivedThread with
    | none => simpa [hs₁, hl, regExpThreadRun] using hnd
    | some v =>
      have hv : s.archived.lookup v = none :=
        Option.not_isSome_iff_eq_none.1 fun h => ((ha v).1 h).2 hl
      have hvm : v ∉ s.archived.map Prod.fst := fun hm => by
        obtain ⟨p, hp, rfl⟩ := List.mem_map.1 hm
        simpa using List.lookup_eq_none_iff.1 hv p hp
      simpa [hs₁, hl, regExpThreadRun, regExpThreadStep, archiveStack] using
        ⟨fun x hx => hvm (List.mem_map_of_mem Prod.fst hx), hnd⟩
  have hother : ∀ u, u ≠ t → ((s₁.archived.lookup u).isSome ↔
      u ≠ t ∧ (w.ctx.tm.threadStateKey u).isSome) := by
    intro u hu
    rw [h₁]
    by_cases hl : w.ctx.tm.lazilyArchivedThread = some u
    · obtain ⟨p, hp⟩ := Option.isSome_iff_exists.1 (hs.lazy_valid.symm.trans (by simp [hl]))
      simp [hl, hu, (hs.lazy_state u p hl hp).1]
    · simp [hl, hu, ha u, ThreadManagerData.Committed]
  have hrun : ∀ ops, regExpThreadRun K
      (w.ctx.tm.lazilyArchivedThread.toList.map .archiveStack ++ ops) s = regExpThreadRun K ops s₁ :=
    fun _ => List.foldl_append ..
  rw [hrun]
  cases hk : w.ctx.tm.threadStateKey t with
  | none =>
    refine ⟨fun u => ?_, hnd₁⟩
    by_cases hu : u = t
    · subst hu; simp [regExpThreadRun, h₁, hlt, ha, ThreadManagerData.Committed, hk]
    · exact hother u hu
  | some p =>
    refine ⟨fun u => ?_, nodup_restoreStack hnd₁ t⟩
    show ((restoreStack t s₁).archived.lookup u).isSome ↔ _
    rw [lookup_restoreStack hnd₁]
    by_cases hu : u = t
    · simp [hu]
    · rw [if_neg hu]; exact hother u hu

theorem World.tm_next_restore {w : World S} {t : ThreadId} {k : Resume}
    (hpc : (w.threads t).pc = .restore k) :
    (w.next (.proceed t)).ctx.tm = (restoreThread t w.ctx).1.tm := by
  cases k with
  | locker => simp only [World.next, hpc]; split <;> rfl
  | unlocker => simp only [World.next, hpc]; rfl

theorem RegExpRelated.init (heap₀ : CHeap) :
    RegExpRelated K heap₀ (RegExpWorld.init K heap₀ : RegExpWorld S) :=
  ⟨SwitchInv.init heap₀, fun _ => rfl, fun _ => by
    simp [RegExpWorld.init, World.init, ThreadManagerData.init, ThreadManagerData.Committed],
    List.nodup_nil⟩

variable {heap₀ : CHeap}

theorem RegExpRelated.next {rw : RegExpWorld S} (hi : Inv rw.world) (hr : RegExpRelated K heap₀ rw)
    {e : RegExpWorld.Event S} (he : rw.Enabled K e) : RegExpRelated K heap₀ (rw.next K e) := by
  cases e with
  | call t op =>
    refine ⟨hr.inv.run ?_, fun hq => absurd hq (World.not_quiet_of_running
      (hi.running_of_holder he.1 he.2.1)), hr.archived, hr.nodup⟩
    cases op
    · exact ⟨he.2.2.1, trivial⟩
    all_goals trivial
  | step e =>
    have harch : (∀ u, ((regExpThreadRun K (rw.world.regExpOps e) rw.regExpStack).archived.lookup
        u).isSome ↔ (rw.world.next e).ctx.tm.Committed u) ∧
        ((regExpThreadRun K (rw.world.regExpOps e) rw.regExpStack).archived.map Prod.fst).Nodup := by
      by_cases hres : ∃ t k, e = .proceed t ∧ (rw.world.threads t).pc = .restore k
      · obtain ⟨t, k, rfl, hpc⟩ := hres
        obtain ⟨F, U, hs⟩ := hi.store
        obtain ⟨hl, hn⟩ := lookup_restoreOps hs hr.archived hr.nodup hpc
        obtain ⟨-, hlazy, hkey, -⟩ := hs.restoreThread t
        refine ⟨fun u => (hl u).trans ?_, hn⟩
        rw [World.tm_next_restore hpc]
        by_cases hu : u = t <;> simp [ThreadManagerData.Committed, hlazy, hkey, hu]
      · obtain ⟨hops, hc⟩ := hi.committed_next he fun t k h hpc => hres ⟨t, k, h, hpc⟩
        have hsame : (regExpThreadRun K (rw.world.regExpOps e) rw.regExpStack).archived =
            rw.regExpStack.archived := by
          rcases hops with h | h <;> rw [h] <;> rfl
        rw [hsame]
        exact ⟨fun u => (hr.archived u).trans (hc u).symm, hr.nodup⟩
    refine ⟨hr.inv.run (hi.switchesOk_regExpOps hr.quiet e), fun hq => ?_, harch.1, harch.2⟩
    show (regExpThreadRun K (rw.world.regExpOps e) rw.regExpStack).current.threadLocal = _
    rcases hi.quiet_of_next he hq with ⟨hq', hops⟩ | hops <;> rw [hops]
    · exact hr.quiet hq'
    · exact free_of_shaped hr.inv.current.shape

theorem RegExpReach.related {rw : RegExpWorld S} (h : RegExpReach K heap₀ rw) :
    Reachable rw.world ∧ RegExpRelated K heap₀ rw := by
  induction h with
  | init => exact ⟨.init, .init heap₀⟩
  | @step rw e _ he ih =>
    cases e with
    | step e => exact ⟨.step ih.1 he trivial, ih.2.next (Reach.inv ih.1) he⟩
    | call t op => exact ⟨ih.1, ih.2.next (Reach.inv ih.1) he⟩

theorem RegExpReach.run {rw rw' : RegExpWorld S} {es : List (RegExpWorld.Event S)}
    (h : RegExpReach K heap₀ rw) (hr : RegExpWorld.Run K rw es rw') : RegExpReach K heap₀ rw' := by
  induction es generalizing rw with
  | nil => exact hr ▸ h
  | cons e es ih => exact ih (.step h hr.1) hr.2

/-- Along every run of a context's guards and of calls on `thread_local_` whose allocations are
fresh, every `RestoreStack` that `RestoreThread` calls finds `ThreadLocal()`; every live array is
one from before or is owned by exactly one record; and the threads with an archived record are
those whose state is committed. -/
theorem regExpStack_guarded_switches {rw : RegExpWorld S} (h : RegExpReach K heap₀ rw) :
    (∀ e, SwitchesOk K (rw.world.regExpOps e) rw.regExpStack) ∧
      rw.regExpStack.current.heap.blocks.Perm (ownedArrays rw.regExpStack ++ heap₀.blocks) ∧
      ((ownedArrays rw.regExpStack).map Prod.fst).Nodup ∧
      (∀ b ∈ ownedArrays rw.regExpStack, b.1 ∉ heap₀.blocks.map Prod.fst) ∧
      ∀ t, (rw.regExpStack.archived.lookup t).isSome ↔ rw.world.ctx.tm.Committed t := by
  obtain ⟨hw, hr⟩ := h.related
  obtain ⟨hblocks, hnodup, hfresh⟩ := hr.inv.owns
  exact ⟨(Reach.inv hw).switchesOk_regExpOps hr.quiet, hblocks, hnodup, hfresh, hr.archived⟩

/-- Thread `0` grows its stack and leaves through an `Unlocker`; thread `1` takes the lock,
which commits thread `0`'s archive, grows its own stack and frees it at its `Locker`'s exit; thread
`0` takes the lock back. -/
def regExpHandOff : List (RegExpWorld.Event S) :=
  [.step (.lockerEnter 0), .step (.proceed 0), .step (.proceed 0), .step (.proceed 0),
    .step (.proceed 0), .call 0 (.ensureCapacity 4096 0), .step (.unlockerEnter 0),
    .step (.proceed 0), .step (.proceed 0),
    .step (.lockerEnter 1), .step (.proceed 1), .step (.proceed 1), .step (.proceed 1),
    .step (.proceed 1), .call 1 (.ensureCapacity 8192 2000), .step (.lockerExit 1),
    .step (.proceed 1), .step (.proceed 1),
    .step (.unlockerExit 0), .step (.proceed 0), .step (.proceed 0), .step (.proceed 0)]

theorem regExpStack_guarded_switches_handOff :
    RegExpWorld.Run sampleStackConstants (.init sampleStackConstants ⟨[(100, 16)], fun _ => 0⟩)
        regExpHandOff (regExpHandOff.foldl (RegExpWorld.next sampleStackConstants)
          (.init sampleStackConstants ⟨[(100, 16)], fun _ => 0⟩ : RegExpWorld Subsystems.word)) ∧
      (regExpHandOff.foldl (RegExpWorld.next sampleStackConstants)
        (.init sampleStackConstants ⟨[(100, 16)], fun _ => 0⟩ :
          RegExpWorld Subsystems.word)).regExpStack.current.threadLocal = ⟨4096, 1024, 4352⟩ ∧
      (regExpHandOff.foldl (RegExpWorld.next sampleStackConstants)
        (.init sampleStackConstants ⟨[(100, 16)], fun _ => 0⟩ :
          RegExpWorld Subsystems.word)).regExpStack.archived = [] ∧
      ((∀ e, SwitchesOk sampleStackConstants
          ((regExpHandOff.foldl (RegExpWorld.next sampleStackConstants)
            (.init sampleStackConstants ⟨[(100, 16)], fun _ => 0⟩ :
              RegExpWorld Subsystems.word)).world.regExpOps e)
          (regExpHandOff.foldl (RegExpWorld.next sampleStackConstants)
            (.init sampleStackConstants ⟨[(100, 16)], fun _ => 0⟩ :
              RegExpWorld Subsystems.word)).regExpStack) ∧
        (regExpHandOff.foldl (RegExpWorld.next sampleStackConstants)
            (.init sampleStackConstants ⟨[(100, 16)], fun _ => 0⟩ :
              RegExpWorld Subsystems.word)).regExpStack.current.heap.blocks.Perm
          (ownedArrays (regExpHandOff.foldl (RegExpWorld.next sampleStackConstants)
            (.init sampleStackConstants ⟨[(100, 16)], fun _ => 0⟩ :
              RegExpWorld Subsystems.word)).regExpStack ++ [(100, 16)]) ∧
        ((ownedArrays (regExpHandOff.foldl (RegExpWorld.next sampleStackConstants)
            (.init sampleStackConstants ⟨[(100, 16)], fun _ => 0⟩ :
              RegExpWorld Subsystems.word)).regExpStack).map Prod.fst).Nodup ∧
        (∀ b ∈ ownedArrays (regExpHandOff.foldl (RegExpWorld.next sampleStackConstants)
            (.init sampleStackConstants ⟨[(100, 16)], fun _ => 0⟩ :
              RegExpWorld Subsystems.word)).regExpStack, b.1 ∉ [(100, 16)].map Prod.fst) ∧
        ∀ t, ((regExpHandOff.foldl (RegExpWorld.next sampleStackConstants)
            (.init sampleStackConstants ⟨[(100, 16)], fun _ => 0⟩ :
              RegExpWorld Subsystems.word)).regExpStack.archived.lookup t).isSome ↔
          (regExpHandOff.foldl (RegExpWorld.next sampleStackConstants)
            (.init sampleStackConstants ⟨[(100, 16)], fun _ => 0⟩ :
              RegExpWorld Subsystems.word)).world.ctx.tm.Committed t) := by
  have h : RegExpWorld.Run sampleStackConstants
      (.init sampleStackConstants ⟨[(100, 16)], fun _ => 0⟩) regExpHandOff
      (regExpHandOff.foldl (RegExpWorld.next sampleStackConstants)
        (.init sampleStackConstants ⟨[(100, 16)], fun _ => 0⟩ : RegExpWorld Subsystems.word)) ∧
      (regExpHandOff.foldl (RegExpWorld.next sampleStackConstants)
        (.init sampleStackConstants ⟨[(100, 16)], fun _ => 0⟩ :
          RegExpWorld Subsystems.word)).regExpStack.current.threadLocal = ⟨4096, 1024, 4352⟩ ∧
      (regExpHandOff.foldl (RegExpWorld.next sampleStackConstants)
        (.init sampleStackConstants ⟨[(100, 16)], fun _ => 0⟩ :
          RegExpWorld Subsystems.word)).regExpStack.archived = [] := by
    simp [regExpHandOff, RegExpWorld.Run, RegExpWorld.Enabled, RegExpWorld.next,
      RegExpWorld.regExpOps, RegExpWorld.init, World.regExpOps, AllocationsFresh, World.Enabled,
      World.next, World.withThread, World.withTm, World.init, ThreadManagerData.init, Pc.waiting,
      ThreadManagerData.isLockedByCurrentThread, restoreThread, restoreOwnState,
      EmbeddableV8.assignId, ThreadManagerData.hasId, archiveThread, intSucc, eagerlyArchiveThread,
      freeThreadResources, restoreState, Function.update_apply, regExpThreadRun, regExpThreadStep,
      regExpStackStep, ensureCapacity, free, releaseAbove, archiveStack, restoreStack,
      CHeap.newArray, CHeap.deleteArray, sampleStackConstants, RegExpThreadLocal.empty]
  exact ⟨h.1, h.2.1, h.2.2, regExpStack_guarded_switches (RegExpReach.run .init h.1)⟩

end EmbeddableV8
