import EmbeddableV8.Preemption
import EmbeddableV8.Invariant
set_option autoImplicit false

/-!
A context's `ContextSwitcher` workers beside its guards. The thread in `StopPreemption` waits in
`Join` holding the lock, so no other call starts meanwhile.
-/

namespace EmbeddableV8

variable {S : Subsystems}

def Event.thread : Event S → ThreadId
  | .lockerEnter t | .lockerExit t | .unlockerEnter t | .unlockerExit t | .proceed t
  | .run t _ | .terminateExecution t _ => t

theorem World.threads_next_of_ne (w : World S) {e : Event S} {u : ThreadId} (hu : u ≠ e.thread) :
    (w.next e).threads u = w.threads u := by
  cases e <;> simp only [Event.thread] at hu <;> simp only [World.next] <;> (repeat' split) <;>
    simp [World.withThread, Function.update_noteq hu]

/-- A context's guards, its preemption state, and the thread waiting in `Join`. -/
structure PreemptedWorld (S : Subsystems) where
  world : World S
  preemption : Preemption
  joiner : Option ThreadId

namespace PreemptedWorld

inductive Event (S : Subsystems) where
  | step (e : EmbeddableV8.Event S)
  | startPreemption (t : ThreadId) (everyNMs : Nat) (thread : ThreadId)
  | stopPreemption (t : ThreadId)
  | joined
  | worker (e : Preemption.Event)

def init : PreemptedWorld S := ⟨World.init S, .init, none⟩

variable (pw : PreemptedWorld S)

/-- `t` runs its own code inside a `Locker` and is not waiting in `Join`. -/
def Calls (t : ThreadId) : Prop :=
  (pw.world.threads t).pc = .idle ∧ lockerOnTop (pw.world.threads t).guards ∧ pw.joiner ≠ some t

def next : Event S → PreemptedWorld S
  | .step e => { pw with world := pw.world.next e }
  | .startPreemption _ everyNMs thread =>
    { pw with preemption := pw.preemption.next (.startPreemption everyNMs thread) }
  | .stopPreemption t =>
    { pw with
      preemption := pw.preemption.next .stopPreemption
      joiner := if pw.preemption.singleton.isSome then some t else none }
  | .joined => { pw with preemption := pw.preemption.next .joined, joiner := none }
  | .worker e => { pw with preemption := pw.preemption.next e }

def Event.preemption : Event S → Option Preemption.Event
  | .step _ => none
  | .startPreemption _ everyNMs thread => some (.startPreemption everyNMs thread)
  | .stopPreemption _ => some .stopPreemption
  | .joined => some .joined
  | .worker e => some e

/-- Guard steps of threads not waiting in `Join`; calls from inside a `Locker`; `Join`'s return
and the workers' steps as `Preemption` allows them. -/
def Enabled : Event S → Prop
  | .step e => pw.world.Enabled e ∧ pw.joiner ≠ some e.thread
  | .startPreemption t _ _ | .stopPreemption t => pw.Calls t
  | .joined => pw.preemption.Enabled .joined
  | .worker e => (e matches .check _ | .wake _ | .preempt _) ∧ pw.preemption.Enabled e

def AssertsHold : Event S → Prop
  | .startPreemption t _ _ | .stopPreemption t => pw.world.ctx.tm.isLockedByCurrentThread t
  | _ => True

def Run : PreemptedWorld S → List (Event S) → PreemptedWorld S → Prop
  | pw, [], pw' => pw' = pw
  | pw, e :: es, pw' => pw.Enabled e ∧ Run (pw.next e) es pw'

end PreemptedWorld

inductive PreemptedReach : PreemptedWorld S → Prop
  | init : PreemptedReach .init
  | step {pw : PreemptedWorld S} {e : PreemptedWorld.Event S} : PreemptedReach pw →
      pw.Enabled e → PreemptedReach (pw.next e)

/-- The thread waiting in `Join` is the one `Preemption` records, and it keeps running, holding
the lock. -/
structure PreemptedWorld.Related (pw : PreemptedWorld S) : Prop where
  joining : pw.joiner.isSome = pw.preemption.joining.isSome
  joiner : ∀ u, pw.joiner = some u → (pw.world.threads u).running = true

namespace PreemptedWorld

variable {pw : PreemptedWorld S}

theorem Related.init : (init : PreemptedWorld S).Related := ⟨rfl, fun _ h => nomatch h⟩

theorem Calls.joining_none (hi : Inv pw.world) (hr : pw.Related) {t : ThreadId} (hc : pw.Calls t) :
    pw.preemption.joining = none := by
  cases hj : pw.joiner with
  | none => exact Option.not_isSome_iff_eq_none.1 (by simp [← hr.joining, hj])
  | some u =>
    have ht : (pw.world.threads t).running = true := by
      simp [ThreadCtl.running, hc.1, hc.2.1]
    have hut : u = t := by
      by_contra hne
      have := hi.not_running_of_holds (ThreadCtl.holdsMutex_of_running ht) hne
      rw [hr.joiner u hj] at this
      cases this
    exact absurd (hut ▸ hj) hc.2.2

theorem Calls.isLocked (hi : Inv pw.world) {t : ThreadId} (hc : pw.Calls t) :
    pw.world.ctx.tm.isLockedByCurrentThread t = true := by
  have ht : (pw.world.threads t).ownsLock = true := by simp [ThreadCtl.ownsLock, hc.1, hc.2.1]
  simpa [ThreadManagerData.isLockedByCurrentThread] using (hi.agrees t).owner.2 ht

@[simp] theorem joining_next_worker (p : Preemption) (e : Preemption.Event)
    (he : e matches .check _ | .wake _ | .preempt _) : (p.next e).joining = p.joining := by
  cases e <;> first | rfl | simp at he

@[simp] theorem joining_next_startPreemption (p : Preemption) (everyNMs : Nat) (t : ThreadId) :
    (p.next (.startPreemption everyNMs t)).joining = p.joining := by
  simp only [Preemption.next]; split <;> rfl

theorem preemption_next (e : Event S) :
    (pw.next e).preemption = (e.preemption).elim pw.preemption pw.preemption.next := by
  cases e <;> rfl

theorem Related.next (hi : Inv pw.world) (hr : pw.Related) {e : Event S} (he : pw.Enabled e) :
    (∀ pe, e.preemption = some pe → pw.preemption.Enabled pe) ∧ (pw.next e).Related := by
  cases e with
  | step e =>
    refine ⟨fun _ h => (nomatch h), hr.joining, fun u hu => ?_⟩
    have hne : u ≠ e.thread := fun h => he.2 (h ▸ hu)
    show ((pw.world.next e).threads u).running = true
    rw [pw.world.threads_next_of_ne hne]
    exact hr.joiner u hu
  | startPreemption t everyNMs thread =>
    refine ⟨fun _ h => ?_, ?_, hr.joiner⟩
    · cases h; exact he.joining_none hi hr
    · simpa [PreemptedWorld.next] using hr.joining
  | stopPreemption t =>
    have hj := he.joining_none hi hr
    refine ⟨fun _ h => ?_, ?_, fun u hu => ?_⟩
    · cases h; exact hj
    · cases hs : pw.preemption.singleton <;> simp [PreemptedWorld.next, Preemption.next, hs, hj]
    · obtain rfl : t = u := by
        by_cases hs : pw.preemption.singleton.isSome <;> simp [PreemptedWorld.next, hs] at hu
        exact hu
      simp [PreemptedWorld.next, ThreadCtl.running, he.1, he.2.1]
  | joined =>
    refine ⟨fun _ h => ?_, ?_, fun _ h => nomatch h⟩
    · cases h; exact he
    · obtain ⟨k, hk, -⟩ := he
      simp [PreemptedWorld.next, Preemption.next, hk]
  | worker e =>
    refine ⟨fun _ h => ?_, ?_, hr.joiner⟩
    · cases h; exact he.2
    · simpa [PreemptedWorld.next, joining_next_worker _ _ he.1] using hr.joining

end PreemptedWorld

theorem PreemptedReach.related {pw : PreemptedWorld S} (h : PreemptedReach pw) :
    Reachable pw.world ∧ PreemptionReach pw.preemption ∧ pw.Related := by
  induction h with
  | init => exact ⟨.init, .init, .init⟩
  | @step pw e _ he ih =>
    obtain ⟨hw, hp, hr⟩ := ih
    obtain ⟨hpe, hr'⟩ := hr.next (Reach.inv hw) he
    refine ⟨?_, ?_, hr'⟩
    · cases e with
      | step e => exact .step hw he.1 trivial
      | _ => exact hw
    · rw [PreemptedWorld.preemption_next]
      cases hpe' : e.preemption with
      | none => exact hp
      | some pe => exact .step hp (hpe pe hpe')

theorem PreemptedReach.run {pw pw' : PreemptedWorld S} {es : List (PreemptedWorld.Event S)}
    (h : PreemptedReach pw) (hr : PreemptedWorld.Run pw es pw') : PreemptedReach pw' := by
  induction es generalizing pw with
  | nil => exact hr ▸ h
  | cons e es ih => exact ih (.step h hr.1) hr.2

/-- Along every run of a context's guards, its `ContextSwitcher` calls and its workers, the
preemption state goes through a run of `Preemption`: no `StartPreemption` or `StopPreemption`
starts while another waits in `Join`; their `ASSERT(Locker::IsLocked())` holds; and the thread
waiting in `Join` holds the lock throughout. -/
theorem preemption_calls_hold_lock {pw : PreemptedWorld S} (h : PreemptedReach pw) :
    Reachable pw.world ∧ PreemptionReach pw.preemption ∧
      (∀ e, pw.Enabled e → pw.AssertsHold e ∧
        ∀ pe, e.preemption = some pe → pw.preemption.Enabled pe) ∧
      ∀ u, pw.joiner = some u →
        pw.preemption.joining.isSome ∧ pw.world.ctx.tm.isLockedByCurrentThread u := by
  obtain ⟨hw, hp, hr⟩ := h.related
  have hi := Reach.inv hw
  refine ⟨hw, hp, fun e he => ⟨?_, (hr.next hi he).1⟩, fun u hu => ⟨?_, ?_⟩⟩
  · cases e
    case startPreemption => exact he.isLocked hi
    case stopPreemption => exact he.isLocked hi
    all_goals trivial
  · rw [← hr.joining, hu]; rfl
  · simpa [ThreadManagerData.isLockedByCurrentThread] using
      (hi.agrees u).owner.2 (ThreadCtl.ownsLock_of_running (hr.joiner u hu))

/-- Thread `0` takes the lock and starts a worker on thread `7`, which preempts once; thread `0`
stops it and waits in `Join` while thread `1` waits for the lock. -/
def preemptedJoin : List (PreemptedWorld.Event S) :=
  [.step (.lockerEnter 0), .step (.proceed 0), .step (.proceed 0), .step (.proceed 0),
    .step (.proceed 0), .startPreemption 0 10 7, .worker (.check 0), .worker (.wake 0),
    .worker (.preempt 0), .stopPreemption 0, .step (.lockerEnter 1)]

theorem preemption_calls_hold_lock_join :
    PreemptedWorld.Run .init preemptedJoin
        (preemptedJoin.foldl PreemptedWorld.next (.init : PreemptedWorld Subsystems.word)) ∧
      (preemptedJoin.foldl PreemptedWorld.next
        (.init : PreemptedWorld Subsystems.word)).joiner = some 0 ∧
      ((preemptedJoin.foldl PreemptedWorld.next
        (.init : PreemptedWorld Subsystems.word)).world.threads 1).pc = .lockWait .locker ∧
      (Reachable (preemptedJoin.foldl PreemptedWorld.next
          (.init : PreemptedWorld Subsystems.word)).world ∧
        PreemptionReach (preemptedJoin.foldl PreemptedWorld.next
          (.init : PreemptedWorld Subsystems.word)).preemption ∧
        (∀ e, (preemptedJoin.foldl PreemptedWorld.next
            (.init : PreemptedWorld Subsystems.word)).Enabled e →
          (preemptedJoin.foldl PreemptedWorld.next
            (.init : PreemptedWorld Subsystems.word)).AssertsHold e ∧
          ∀ pe, e.preemption = some pe → (preemptedJoin.foldl PreemptedWorld.next
            (.init : PreemptedWorld Subsystems.word)).preemption.Enabled pe) ∧
        ∀ u, (preemptedJoin.foldl PreemptedWorld.next
            (.init : PreemptedWorld Subsystems.word)).joiner = some u →
          (preemptedJoin.foldl PreemptedWorld.next
            (.init : PreemptedWorld Subsystems.word)).preemption.joining.isSome ∧
          (preemptedJoin.foldl PreemptedWorld.next
            (.init : PreemptedWorld Subsystems.word)).world.ctx.tm.isLockedByCurrentThread u) := by
  have hr : PreemptedWorld.Run .init preemptedJoin
      (preemptedJoin.foldl PreemptedWorld.next (.init : PreemptedWorld Subsystems.word)) := by
    simp [preemptedJoin, PreemptedWorld.Run, PreemptedWorld.Enabled, PreemptedWorld.Calls,
      PreemptedWorld.next, PreemptedWorld.init, Event.thread, Preemption.Enabled,
      Preemption.next, Preemption.init, Preemption.setPc, Worker.blank, World.Enabled,
      World.next, World.withThread, World.withTm, World.init, ThreadManagerData.init, Pc.waiting,
      ThreadManagerData.isLockedByCurrentThread, restoreThread, restoreOwnState,
      EmbeddableV8.assignId, ThreadManagerData.hasId, intSucc, Function.update_apply]
  refine ⟨hr, ?_, ?_, preemption_calls_hold_lock (PreemptedReach.init.run hr)⟩ <;>
    simp [preemptedJoin, PreemptedWorld.next, PreemptedWorld.init, Preemption.next,
      Preemption.init, Preemption.setPc, Worker.blank, World.next, World.withThread, World.withTm,
      World.init, ThreadManagerData.init, ThreadManagerData.isLockedByCurrentThread,
      restoreThread, restoreOwnState, EmbeddableV8.assignId, ThreadManagerData.hasId, intSucc,
      Function.update_apply]

end EmbeddableV8
