import EmbeddableV8.Ids
import EmbeddableV8.VMState
set_option autoImplicit false

/-!
The logger's `VMState` stack in the runs of a context's guards; the logger's lock is the thread
manager's `mutex_`.
-/

namespace EmbeddableV8

variable {S : Subsystems}

def World.lockEvent (w : World S) : Event S → Option LoggerWorld.Event
  | .proceed t =>
    match (w.threads t).pc with
    | .lockWait _ => some (.lock t)
    | .unlockMutex => some (.unlock t)
    | _ => none
  | _ => none

theorem World.mutex_next (w : World S) (e : Event S) {logging : Bool} {l : LoggerWorld}
    (hl : l.holder = w.ctx.tm.mutex) :
    ((w.lockEvent e).elim l (l.next logging)).holder = (w.next e).ctx.tm.mutex := by
  cases e with
  | lockerEnter t => simp only [World.next]; split <;> exact hl
  | lockerExit t => simp only [World.next]; split <;> exact hl
  | proceed t =>
    have hr : (restoreThread t w.ctx).1.tm.mutex = l.holder :=
      ThreadManagerData.SameLock.restoreThread.mutex.trans hl.symm
    cases hpc : (w.threads t).pc with
    | restore k =>
      cases k <;> simp only [World.next, World.lockEvent, hpc, Option.elim, World.withThread_ctx]
      · split <;> exact hr.symm
      · exact hr.symm
    | _ => simp [World.next, World.lockEvent, hpc, LoggerWorld.next, hl]
  | _ => exact hl

structure LoggedWorld (S : Subsystems) where
  world : World S
  logger : LoggerWorld

namespace LoggedWorld

inductive Event (S : Subsystems) where
  | step (e : EmbeddableV8.Event S)
  | enterVMState (t : ThreadId)
  | exitVMState (t : ThreadId)

variable (logging : Bool) (lw : LoggedWorld S)

def init : LoggedWorld S := ⟨World.init S, LoggerWorld.init⟩

def loggerEvent : Event S → Option LoggerWorld.Event
  | .step e => lw.world.lockEvent e
  | .enterVMState t => some (.enter t)
  | .exitVMState t => some (.exit t)

def next (e : Event S) : LoggedWorld S where
  world := match e with
    | .step e => lw.world.next e
    | _ => lw.world
  logger := (lw.loggerEvent e).elim lw.logger (lw.logger.next logging)

/-- Guard steps as `World` allows them; `VMState` scopes opened and closed, innermost first, by
a thread that runs interpreter code. -/
def Enabled : Event S → Prop
  | .step e => lw.world.Enabled e
  | .enterVMState t => (lw.world.threads t).pc = .idle ∧ lw.world.ctx.tm.mutex = some t
  | .exitVMState t =>
    (lw.world.threads t).pc = .idle ∧ lw.world.ctx.tm.mutex = some t ∧ lw.logger.scopes t ≠ []

def Run : LoggedWorld S → List (Event S) → LoggedWorld S → Prop
  | lw, [], lw' => lw' = lw
  | lw, e :: es, lw' => lw.Enabled e ∧ Run (lw.next logging e) es lw'

variable {logging lw}

theorem holder_next (hh : lw.logger.holder = lw.world.ctx.tm.mutex) (e : Event S) :
    (lw.next logging e).logger.holder = (lw.next logging e).world.ctx.tm.mutex := by
  cases e with
  | step e => exact World.mutex_next lw.world e hh
  | enterVMState t => exact hh
  | exitVMState t =>
    show (lw.logger.next logging (.exit t)).holder = _
    simp only [LoggerWorld.next]
    split <;> exact hh

theorem loggerEvent_enabled (hi : Inv lw.world) (hh : lw.logger.holder = lw.world.ctx.tm.mutex)
    {e : Event S} (he : lw.Enabled e) {le : LoggerWorld.Event} (hle : lw.loggerEvent e = some le) :
    lw.logger.Enabled le := by
  cases e with
  | step e =>
    cases e with
    | proceed t =>
      obtain ⟨-, hwait⟩ := he
      simp only [loggerEvent, World.lockEvent] at hle
      split at hle <;> cases hle
      · rename_i hpc
        exact hh.trans (hwait (by simp [hpc, Pc.waiting]))
      · rename_i hpc
        exact hh.trans ((hi.agrees t).mutex.2 (by simp [ThreadCtl.holdsMutex, hpc]))
    | _ => cases hle
  | enterVMState t => cases hle; exact hh.trans he.2
  | exitVMState t => cases hle; exact ⟨hh.trans he.2.1, he.2.2⟩

end LoggedWorld

inductive LoggedReach (logging : Bool) (ok : LoggerWorld → LoggerWorld.Event → Prop) :
    LoggedWorld S → Prop
  | init : LoggedReach logging ok .init
  | step {lw : LoggedWorld S} {e : LoggedWorld.Event S} : LoggedReach logging ok lw →
      lw.Enabled e → (∀ le, lw.loggerEvent e = some le → ok lw.logger le) →
      LoggedReach logging ok (lw.next logging e)

theorem LoggedReach.run {logging : Bool} {lw lw' : LoggedWorld S}
    {es : List (LoggedWorld.Event S)} (h : LoggedReach logging (fun _ _ => True) lw)
    (hr : lw.Run logging es lw') : LoggedReach logging (fun _ _ => True) lw' := by
  induction es generalizing lw with
  | nil => obtain rfl : lw' = lw := hr; exact h
  | cons e es ih => exact ih (.step h hr.1 fun _ _ => trivial) hr.2

/-- Every run of a context's guards interleaved with the `VMState` scopes of the threads that
run is a run of the guards and, on the logger, a run of `LoggerWorld` whose lock is `mutex_`. -/
theorem LoggedReach.simulates {logging : Bool} {ok : LoggerWorld → LoggerWorld.Event → Prop}
    {lw : LoggedWorld S} (h : LoggedReach logging ok lw) :
    Reachable lw.world ∧ lw.logger.holder = lw.world.ctx.tm.mutex ∧ LoggerReach logging ok lw.logger := by
  induction h with
  | init => exact ⟨.init, rfl, .init⟩
  | @step lw e _ he hok ih =>
    obtain ⟨hw, hh, hl⟩ := ih
    refine ⟨?_, LoggedWorld.holder_next hh e, ?_⟩
    · cases e with
      | step e => exact .step hw he trivial
      | _ => exact hw
    · show LoggerReach logging ok ((lw.loggerEvent e).elim lw.logger (lw.logger.next logging))
      cases hle : lw.loggerEvent e with
      | none => exact hl
      | some le =>
        exact .step hl (LoggedWorld.loggerEvent_enabled hw.inv hh he hle) (hok le hle)


def vmStateFirstScope : List (LoggedWorld.Event S) :=
  [.step (.lockerEnter 0), .step (.proceed 0), .step (.proceed 0), .step (.proceed 0),
    .step (.proceed 0), .enterVMState 0]

theorem simulates_first_scope :
    LoggedReach true (fun _ _ => True)
        (vmStateFirstScope.foldl (LoggedWorld.next true) (.init : LoggedWorld Subsystems.word)) ∧
      (vmStateFirstScope.foldl (LoggedWorld.next true)
        (.init : LoggedWorld Subsystems.word)).logger.scopes 0 = [0] ∧
      Reachable (vmStateFirstScope.foldl (LoggedWorld.next true)
        (.init : LoggedWorld Subsystems.word)).world ∧
      (vmStateFirstScope.foldl (LoggedWorld.next true)
        (.init : LoggedWorld Subsystems.word)).logger.holder =
        (vmStateFirstScope.foldl (LoggedWorld.next true)
          (.init : LoggedWorld Subsystems.word)).world.ctx.tm.mutex ∧
      LoggerReach true (fun _ _ => True) (vmStateFirstScope.foldl (LoggedWorld.next true)
        (.init : LoggedWorld Subsystems.word)).logger := by
  have h : LoggedWorld.Run true .init vmStateFirstScope
        (vmStateFirstScope.foldl (LoggedWorld.next true) (.init : LoggedWorld Subsystems.word)) ∧
      (vmStateFirstScope.foldl (LoggedWorld.next true)
        (.init : LoggedWorld Subsystems.word)).logger.scopes 0 = [0] := by
    simp [vmStateFirstScope, LoggedWorld.Run, LoggedWorld.Enabled, LoggedWorld.next,
      LoggedWorld.loggerEvent, LoggedWorld.init, World.lockEvent, LoggerWorld.next,
      LoggerWorld.init, World.Enabled, World.next, World.withThread, World.withTm, World.init,
      ThreadManagerData.init, Pc.waiting, ThreadManagerData.isLockedByCurrentThread, restoreThread,
      restoreOwnState, EmbeddableV8.assignId, ThreadManagerData.hasId]
  have hr := LoggedReach.run .init h.1
  exact ⟨hr, h.2, hr.simulates⟩

/-- Threads `0` and `1` each take the lock in a `Locker`, open a `VMState` and park in an
`Unlocker` inside it; thread `0` comes back, closes its `VMState` and leaves its `Locker`;
thread `1` comes back and closes its `VMState`. -/
def vmStateHandOff : List (LoggedWorld.Event S) :=
  [.step (.lockerEnter 0), .step (.proceed 0), .step (.proceed 0), .step (.proceed 0),
    .step (.proceed 0), .enterVMState 0, .step (.unlockerEnter 0), .step (.proceed 0),
    .step (.proceed 0),
    .step (.lockerEnter 1), .step (.proceed 1), .step (.proceed 1), .step (.proceed 1),
    .step (.proceed 1), .enterVMState 1, .step (.unlockerEnter 1), .step (.proceed 1),
    .step (.proceed 1),
    .step (.unlockerExit 0), .step (.proceed 0), .step (.proceed 0), .step (.proceed 0),
    .exitVMState 0, .step (.lockerExit 0), .step (.proceed 0), .step (.proceed 0),
    .step (.unlockerExit 1), .step (.proceed 1), .step (.proceed 1), .step (.proceed 1),
    .exitVMState 1]

/-- Along `vmStateHandOff`, thread `1`'s `VMState` records thread `0`'s as `previous_`, and its
destructor makes `current_state_` the `VMState` at `0`, thread `0`'s, already destroyed. -/
theorem vmState_current_state_dangles :
    LoggedWorld.Run true .init vmStateHandOff
        (vmStateHandOff.foldl (LoggedWorld.next true) (.init : LoggedWorld Subsystems.word)) ∧
      (vmStateHandOff.foldl (LoggedWorld.next true)
        (.init : LoggedWorld Subsystems.word)).logger.currentState = some 0 ∧
      ∀ t, 0 ∉ (vmStateHandOff.foldl (LoggedWorld.next true)
        (.init : LoggedWorld Subsystems.word)).logger.scopes t := by
  simp [vmStateHandOff, LoggedWorld.Run, LoggedWorld.Enabled, LoggedWorld.next,
      LoggedWorld.loggerEvent, LoggedWorld.init, World.lockEvent, LoggerWorld.next,
      LoggerWorld.init, LoggerWorld.constructVMState, LoggerWorld.destroyVMState, World.Enabled,
      World.next, World.withThread, World.withTm, World.init, ThreadManagerData.init, Pc.waiting,
      ThreadManagerData.isLockedByCurrentThread, restoreThread, restoreOwnState,
      EmbeddableV8.assignId, ThreadManagerData.hasId, archiveThread, intSucc, eagerlyArchiveThread,
      freeThreadResources, restoreState, Function.update_apply]
  intro t
  split_ifs <;> simp_all

end EmbeddableV8
