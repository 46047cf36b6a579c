import EmbeddableV8.ThreadManager
set_option autoImplicit false

/-!
The guard API of `v8threads.cc`, `Locker` and `Unlocker`, used by any number of threads of one
context. The two steps of `Lock()` and of `Unlock()` are separate steps, so every interleaving
of them is a run.
-/

namespace EmbeddableV8

inductive Guard where
  | locker (hasLock topLevel : Bool)
  | unlocker
  deriving DecidableEq, Repr

inductive Resume where
  | locker
  | unlocker
  deriving DecidableEq, Repr

/-- Where a thread is in the guard code; `idle` outside it. -/
inductive Pc where
  | idle
  /-- In `Lock()`, waiting for the mutex. -/
  | lockWait (k : Resume)
  /-- In `Lock()`: the mutex is taken, `mutex_owner_` not yet recorded. -/
  | lockOwner (k : Resume)
  /-- `Lock()` has returned; `RestoreThread` is next. -/
  | restore (k : Resume)
  /-- In `Locker::Locker`, `AssignId` is next; after it the guard exists. -/
  | assignId (hasLock topLevel : Bool)
  /-- In `Unlock()`, `mutex_owner_` is cleared next. -/
  | unlockOwner
  /-- In `Unlock()`, the mutex is released next. -/
  | unlockMutex
  deriving DecidableEq, Repr

def Pc.waiting : Pc → Bool
  | .lockWait _ => true
  | _ => false

structure ThreadCtl where
  guards : List Guard
  pc : Pc
  deriving DecidableEq, Repr

def lockerOnTop : List Guard → Bool
  | .locker _ _ :: _ => true
  | _ => false

def unlockerOnTop : List Guard → Bool
  | .unlocker :: _ => true
  | _ => false

@[simp] theorem lockerOnTop_nil : lockerOnTop [] = false := rfl

@[simp] theorem lockerOnTop_locker (h tl : Bool) (g : List Guard) :
    lockerOnTop (.locker h tl :: g) = true := rfl

@[simp] theorem lockerOnTop_unlocker (g : List Guard) : lockerOnTop (.unlocker :: g) = false := rfl

@[simp] theorem unlockerOnTop_nil : unlockerOnTop [] = false := rfl

@[simp] theorem unlockerOnTop_locker (h tl : Bool) (g : List Guard) :
    unlockerOnTop (.locker h tl :: g) = false := rfl

@[simp] theorem unlockerOnTop_unlocker (g : List Guard) :
    unlockerOnTop (.unlocker :: g) = true := rfl

variable (S : Subsystems)

/-- One context and the threads that use it. -/
structure World where
  ctx : Context S
  threads : ThreadId → ThreadCtl

inductive Event where
  | lockerEnter (t : ThreadId)
  | lockerExit (t : ThreadId)
  | unlockerEnter (t : ThreadId)
  | unlockerExit (t : ThreadId)
  | proceed (t : ThreadId)
  | run (t : ThreadId) (f : Live S → Live S)
  | terminateExecution (t : ThreadId) (threadId : Int)

def World.init : World S where
  ctx := ⟨ThreadManagerData.init, S.blank, false⟩
  threads := fun _ => ⟨[], .idle⟩

variable {S}

namespace World

variable (w : World S)

def withThread (t : ThreadId) (g : List Guard) (pc : Pc) : World S :=
  { w with threads := Function.update w.threads t ⟨g, pc⟩ }

def withTm (tm : ThreadManagerData) : World S := { w with ctx := { w.ctx with tm := tm } }

/-- One step of a thread, with the effect the code has when its `ASSERT`s are compiled out. -/
def next : Event S → World S
  | .lockerEnter t =>
    let w' := { w with ctx := { w.ctx with active := true } }
    if w.ctx.tm.isLockedByCurrentThread t then
      w'.withThread t (w.threads t).guards (.assignId false true)
    else w'.withThread t (w.threads t).guards (.lockWait .locker)
  | .lockerExit t =>
    match (w.threads t).guards with
    | .locker true true :: g =>
      { w with ctx := freeThreadResources w.ctx }.withThread t g .unlockOwner
    | .locker true false :: g =>
      { w with ctx := archiveThread t w.ctx }.withThread t g .unlockOwner
    | .locker false _ :: g => w.withThread t g .idle
    | _ => w
  | .unlockerEnter t =>
    { w with ctx := archiveThread t w.ctx }.withThread t (.unlocker :: (w.threads t).guards)
      .unlockOwner
  | .unlockerExit t => w.withThread t (w.threads t).guards.tail (.lockWait .unlocker)
  | .proceed t =>
    let g := (w.threads t).guards
    match (w.threads t).pc with
    | .idle => w
    | .lockWait k => (w.withTm { w.ctx.tm with mutex := some t }).withThread t g (.lockOwner k)
    | .lockOwner k =>
      (w.withTm { w.ctx.tm with mutexOwner := some t }).withThread t g (.restore k)
    | .restore .locker =>
      let r := restoreThread t w.ctx
      let c := r.1
      if r.2 then { w with ctx := c }.withThread t g (.assignId true false)
      else
        let live := Function.update c.live .stackGuard
          (S.initThread t (S.clearThread (c.live .stackGuard)))
        { w with ctx := { c with live := live } }.withThread t g (.assignId true true)
    | .restore .unlocker => { w with ctx := (restoreThread t w.ctx).1 }.withThread t g .idle
    | .assignId h tl => { w with ctx := assignId t w.ctx }.withThread t (.locker h tl :: g) .idle
    | .unlockOwner => (w.withTm { w.ctx.tm with mutexOwner := none }).withThread t g .unlockMutex
    | .unlockMutex => (w.withTm { w.ctx.tm with mutex := none }).withThread t g .idle
  | .run _ f => { w with ctx := { w.ctx with live := f w.ctx.live } }
  | .terminateExecution _ n => { w with ctx := terminateExecution n w.ctx }

/-- The steps a thread can take: the guard code in program order, destructors in the reverse
order of their constructors, every `Unlocker` directly inside a `Locker`, and interpreter code
only by the lock holder. -/
def Enabled : Event S → Prop
  | .lockerEnter t => (w.threads t).pc = .idle
  | .lockerExit t => (w.threads t).pc = .idle ∧ lockerOnTop (w.threads t).guards
  | .unlockerEnter t => (w.threads t).pc = .idle ∧ lockerOnTop (w.threads t).guards
  | .unlockerExit t => (w.threads t).pc = .idle ∧ unlockerOnTop (w.threads t).guards
  | .proceed t => (w.threads t).pc ≠ .idle ∧ ((w.threads t).pc.waiting → w.ctx.tm.mutex = none)
  | .run t _ => (w.threads t).pc = .idle ∧ w.ctx.tm.mutex = some t
  | .terminateExecution t _ => (w.threads t).pc = .idle ∧ w.ctx.tm.mutex = some t

instance : (e : Event S) → Decidable (w.Enabled e)
  | .lockerEnter _ | .lockerExit _ | .unlockerEnter _ | .unlockerExit _ | .proceed _
  | .run _ _ | .terminateExecution _ _ => by unfold Enabled; infer_instance

/-- The `ASSERT`s on the path of a step hold. -/
def AssertsHold : Event S → Prop
  | .lockerEnter _ => True
  | .lockerExit t => w.ctx.tm.isLockedByCurrentThread t ∧
      match (w.threads t).guards with
      | .locker true false :: _ => archiveThreadOk t w.ctx
      | _ => True
  | .unlockerEnter t => w.ctx.tm.isLockedByCurrentThread t ∧ archiveThreadOk t w.ctx
  | .unlockerExit t => w.ctx.tm.isLockedByCurrentThread t = false
  | .proceed t =>
    match (w.threads t).pc with
    | .restore _ => restoreThreadOk t w.ctx
    | .assignId _ _ => w.ctx.tm.isLockedByCurrentThread t ∧ assignIdOk t w.ctx
    | _ => True
  | .run _ _ | .terminateExecution _ _ => True

end World

inductive Reach (ok : World S → Event S → Prop) : World S → Prop
  | init : Reach ok (World.init S)
  | step {w : World S} {e : Event S} : Reach ok w → w.Enabled e → ok w e → Reach ok (w.next e)

def Reachable (w : World S) : Prop := Reach (fun _ _ => True) w

/-- The step is not an `AssignId` that increments `last_id_` at `INT_MAX`. -/
def World.NoIdOverflow (w : World S) : Event S → Prop
  | .proceed t => ∀ h tl, (w.threads t).pc = .assignId h tl → w.ctx.tm.hasId t = false →
      w.ctx.tm.lastId < 2 ^ 31 - 1
  | _ => True

def ReachableNoOverflow (w : World S) : Prop := Reach (fun w e => w.NoIdOverflow e) w

def Run : World S → List (Event S) → World S → Prop
  | w, [], w' => w' = w
  | w, e :: es, w' => w.Enabled e ∧ Run (w.next e) es w'

theorem Reach.mono {ok ok' : World S → Event S → Prop} (h : ∀ w e, ok w e → ok' w e)
    {w : World S} (hw : Reach ok w) : Reach ok' w := by
  induction hw with
  | init => exact .init
  | step _ he hok ih => exact .step ih he (h _ _ hok)

theorem ReachableNoOverflow.reachable {w : World S} (hw : ReachableNoOverflow w) :
    Reachable w :=
  Reach.mono (fun _ _ _ => trivial) hw

theorem run_append {w w'' : World S} {es es' : List (Event S)} :
    Run w (es ++ es') w'' ↔ ∃ w', Run w es w' ∧ Run w' es' w'' := by
  induction es generalizing w with
  | nil => exact ⟨fun h => ⟨w, rfl, h⟩, fun ⟨_, h₁, h₂⟩ => (h₁ : _ = w) ▸ h₂⟩
  | cons e es ih =>
    show (w.Enabled e ∧ Run (w.next e) (es ++ es') w'') ↔ _
    rw [ih]
    exact ⟨fun ⟨he, w', h₁, h₂⟩ => ⟨w', ⟨he, h₁⟩, h₂⟩, fun ⟨w', ⟨he, h₁⟩, h₂⟩ => ⟨he, w', h₁, h₂⟩⟩

theorem Reachable.run {w w' : World S} {es : List (Event S)} (hw : Reachable w)
    (hr : Run w es w') : Reachable w' := by
  induction es generalizing w with
  | nil => exact (hr : w' = w) ▸ hw
  | cons e es ih => exact ih (.step hw hr.1 trivial) hr.2

end EmbeddableV8
