import EmbeddableV8.ContextSwitcher
set_option autoImplicit false

/-!
The workers of one context's `ContextSwitcher` over whole runs: each runs `ContextSwitcher::Run`
on its own thread without the lock, and `StopPreemption` waits in `Join` until its worker has
left the loop.
-/

namespace EmbeddableV8

inductive WorkerPc where
  | check
  | sleeping
  | preempting
  | exited
  deriving DecidableEq, Repr

/-- A `ContextSwitcher` object, where its thread is, and whether the `StopPreemption` that
stopped it has returned. -/
structure Worker where
  obj : ContextSwitcher
  pc : WorkerPc
  joined : Bool

def Worker.blank : Worker := ⟨⟨0, false, 0⟩, .exited, false⟩

/-- One context's preemption state: its workers by start order, the number started,
`thread_manager_data_.singleton_`, and the worker a `StopPreemption` waits for in `Join`. -/
structure Preemption where
  workers : Nat → Worker
  started : Nat
  singleton : Option Nat
  joining : Option Nat

namespace Preemption

def init : Preemption := ⟨fun _ => .blank, 0, none, none⟩

inductive Event where
  | startPreemption (everyNMs : Nat) (thread : ThreadId)
  | stopPreemption
  | joined
  | check (i : Nat)
  | wake (i : Nat)
  | preempt (i : Nat)
  deriving DecidableEq, Repr

variable (p : Preemption)

def setWorker (i : Nat) (w : Worker) : Preemption :=
  { p with workers := Function.update p.workers i w }

def setPc (i : Nat) (pc : WorkerPc) : Preemption := p.setWorker i { p.workers i with pc := pc }

def next : Event → Preemption
  | .startPreemption everyNMs thread =>
    match p.singleton with
    | none =>
      { p.setWorker p.started ⟨⟨thread, true, everyNMs⟩, .check, false⟩ with
        started := p.started + 1, singleton := some p.started }
    | some k =>
      p.setWorker k { p.workers k with obj := { (p.workers k).obj with sleepMs := everyNMs } }
  | .stopPreemption =>
    match p.singleton with
    | none => p
    | some k =>
      { p.setWorker k { p.workers k with obj := { (p.workers k).obj with keepGoing := false } }
        with joining := some k }
  | .joined =>
    match p.joining with
    | none => p
    | some k =>
      { p.setWorker k { p.workers k with joined := true } with singleton := none, joining := none }
  | .check i => p.setPc i (if (p.workers i).obj.keepGoing then .sleeping else .exited)
  | .wake i => p.setPc i .preempting
  | .preempt i => p.setPc i .check

/-- The lock holder calls `StartPreemption` and `StopPreemption` only when it is not waiting
in a `Join`, which is when no other thread can hold the lock; `Join` returns once the worker
has exited; a worker steps through its loop in order. -/
def Enabled : Event → Prop
  | .startPreemption _ _ => p.joining = none
  | .stopPreemption => p.joining = none
  | .joined => ∃ k, p.joining = some k ∧ (p.workers k).pc = .exited
  | .check i => (p.workers i).pc = .check
  | .wake i => (p.workers i).pc = .sleeping
  | .preempt i => (p.workers i).pc = .preempting

def Run : Preemption → List Event → Preemption → Prop
  | p, [], p' => p' = p
  | p, e :: es, p' => p.Enabled e ∧ Run (p.next e) es p'

@[simp] theorem setWorker_workers (i : Nat) (w : Worker) (j : Nat) :
    (p.setWorker i w).workers j = if j = i then w else p.workers j := Function.update_apply ..

@[simp] theorem setWorker_started (i : Nat) (w : Worker) : (p.setWorker i w).started = p.started :=
  rfl

@[simp] theorem setWorker_singleton (i : Nat) (w : Worker) :
    (p.setWorker i w).singleton = p.singleton := rfl

@[simp] theorem setWorker_joining (i : Nat) (w : Worker) :
    (p.setWorker i w).joining = p.joining := rfl

/-- How the steps keep the workers apart: only the worker `singleton_` points to runs; a
worker it points to was started and not joined, and has exited or lost `keep_going_` only
once a `StopPreemption` waits for it; a joined worker has exited; no worker beyond the
started ones exists. -/
structure Good : Prop where
  running : ∀ i, (p.workers i).pc ≠ .exited → p.singleton = some i
  singleton : ∀ k, p.singleton = some k → k < p.started ∧ (p.workers k).joined = false ∧
    ((p.workers k).pc = .exited ∨ (p.workers k).obj.keepGoing = false → p.joining = some k)
  joining : ∀ k, p.joining = some k → p.singleton = some k ∧ (p.workers k).obj.keepGoing = false
  joined : ∀ i, (p.workers i).joined = true → (p.workers i).pc = .exited
  fresh : ∀ i, p.started ≤ i → p.workers i = .blank

theorem Good.init : Good .init where
  running _ h := absurd rfl h
  singleton _ h := nomatch h
  joining _ h := nomatch h
  joined _ h := nomatch h
  fresh _ _ := rfl

variable {p}

theorem Good.lt_started (hg : p.Good) {i : Nat} (h : (p.workers i).pc ≠ .exited) :
    i < p.started :=
  (hg.singleton i (hg.running i h)).1

theorem Good.setPc_running (hg : p.Good) {i : Nat} {pc : WorkerPc} (h : (p.workers i).pc ≠ .exited)
    (h' : pc ≠ .exited) : (p.setPc i pc).Good := by
  have hs := hg.running i h
  have hj : (p.workers i).joined = false := (hg.singleton i hs).2.1
  refine ⟨fun j hj' => ?_, fun k hk => ?_, fun k hk => ?_, fun j hj' => ?_, fun j hj' => ?_⟩
  · by_cases hji : j = i
    · subst hji; exact hs
    · exact hg.running j (by simpa [Preemption.setPc, hji] using hj')
  · obtain ⟨hlt, hkj, hstop⟩ := hg.singleton k hk
    obtain rfl : k = i := Option.some.inj (hk.symm.trans hs)
    exact ⟨hlt, by simpa [Preemption.setPc] using hkj,
      fun h'' => hstop (.inr (by simpa [Preemption.setPc, h'] using h''))⟩
  · obtain ⟨hk', hkg⟩ := hg.joining k hk
    exact ⟨hk', by by_cases hki : k = i <;> simp_all [Preemption.setPc]⟩
  · by_cases hji : j = i
    · subst hji; simp [Preemption.setPc, hj] at hj'
    · simpa [Preemption.setPc, hji] using hg.joined j (by simpa [Preemption.setPc, hji] using hj')
  · have hji : j ≠ i := by have := hg.lt_started h; simp [Preemption.setPc] at hj'; omega
    simpa [Preemption.setPc, hji] using hg.fresh j hj'

theorem Good.setWorker_same (hg : p.Good) {k : Nat} {w : Worker} (hk : k < p.started)
    (hpc : w.pc = (p.workers k).pc) (hj : w.joined = (p.workers k).joined)
    (hg' : w.obj.keepGoing = (p.workers k).obj.keepGoing) : (p.setWorker k w).Good := by
  have hw : ∀ i, ((p.setWorker k w).workers i).pc = (p.workers i).pc ∧
      ((p.setWorker k w).workers i).joined = (p.workers i).joined ∧
      ((p.setWorker k w).workers i).obj.keepGoing = (p.workers i).obj.keepGoing := fun i => by
    by_cases hik : i = k
    · subst hik; simp [hpc, hj, hg']
    · simp [hik]
  refine ⟨fun i hi => ?_, fun k' hk' => ?_, fun k' hk' => ?_, fun i hi => ?_, fun i hi => ?_⟩
  · exact hg.running i (by rwa [(hw i).1] at hi)
  · rw [(hw k').1, (hw k').2.1, (hw k').2.2]; exact hg.singleton k' hk'
  · rw [(hw k').2.2]; exact hg.joining k' hk'
  · rw [(hw i).1]; exact hg.joined i (by rwa [(hw i).2.1] at hi)
  · simpa [show i ≠ k by simp at hi; omega] using hg.fresh i hi

theorem Good.step (hg : p.Good) {e : Event} (he : p.Enabled e) : (p.next e).Good := by
  cases e with
  | startPreemption everyNMs thread =>
    cases hs : p.singleton with
    | none =>
      simp only [next, hs]
      refine ⟨fun i hi => ?_, fun k hk => ?_, fun k hk => ?_, fun i hi => ?_, fun i hi => ?_⟩
      · by_cases hin : i = p.started
        · simp [hin]
        · simp [hin] at hi; simpa [hs] using hg.running i hi
      · obtain rfl : p.started = k := Option.some.inj hk
        simp
      · simp [show p.joining = none from he] at hk
      · by_cases hin : i = p.started
        · simp [hin] at hi
        · simpa [hin] using hg.joined i (by simpa [hin] using hi)
      · simp only at hi
        simpa [show i ≠ p.started by omega] using hg.fresh i (by omega)
    | some k =>
      simp only [next, hs]
      exact hg.setWorker_same (hg.singleton k hs).1 rfl rfl rfl
  | stopPreemption =>
    cases hs : p.singleton with
    | none => simpa [next, hs] using hg
    | some k =>
      simp only [next, hs]
      obtain ⟨hlt, hkj, -⟩ := hg.singleton k hs
      refine ⟨fun i hi => ?_, fun k' hk' => ?_, fun k' hk' => ?_, fun i hi => ?_, fun i hi => ?_⟩
      · by_cases hik : i = k <;> simp_all [hg.running i]
      · obtain rfl : k = k' := Option.some.inj (by simpa [hs] using hk')
        simp [hlt, hkj]
      · obtain rfl : k = k' := Option.some.inj hk'
        simp [hs]
      · by_cases hik : i = k <;> simp_all [hg.joined i]
      · simpa [show i ≠ k by simp at hi; omega] using hg.fresh i hi
  | joined =>
    obtain ⟨k, hj, hx⟩ := he
    obtain ⟨hs, -⟩ := hg.joining k hj
    have hlt := (hg.singleton k hs).1
    simp only [next, hj]
    refine ⟨fun i hi => ?_, fun k' hk' => (nomatch hk'), fun k' hk' => (nomatch hk'),
      fun i hi => ?_, fun i hi => ?_⟩
    · by_cases hik : i = k
      · simp_all
      · simp only [setWorker_workers, hik, if_false] at hi
        exact absurd (hs.symm.trans (hg.running i hi)) (by simpa [eq_comm] using hik)
    · by_cases hik : i = k
      · simp_all
      · simpa [hik] using hg.joined i (by simpa [hik] using hi)
    · simpa [show i ≠ k by simp at hi; omega] using hg.fresh i hi
  | check i =>
    have he : (p.workers i).pc = .check := he
    simp only [next]
    cases hk : (p.workers i).obj.keepGoing
    · have hs := hg.running i (by simp [he])
      have hj := (hg.singleton i hs).2.2 (.inr hk)
      refine ⟨fun j hj' => ?_, fun k hk' => ?_, fun k hk' => ?_, fun j hj' => ?_, fun j hj' => ?_⟩
      · by_cases hji : j = i
        · simp [Preemption.setPc, hji] at hj'
        · exact hg.running j (by simpa [Preemption.setPc, hji] using hj')
      · obtain rfl : i = k := Option.some.inj (hs.symm.trans hk')
        simpa [Preemption.setPc, hj] using And.intro (hg.singleton i hs).1 (hg.singleton i hs).2.1
      · obtain ⟨hk₁, hk₂⟩ := hg.joining k hk'
        exact ⟨hk₁, by by_cases hki : k = i <;> simp_all [Preemption.setPc]⟩
      · by_cases hji : j = i
        · simp [Preemption.setPc, hji]
        · simpa [Preemption.setPc, hji] using
            hg.joined j (by simpa [Preemption.setPc, hji] using hj')
      · have hji : j ≠ i := by
          have := hg.lt_started (i := i) (by simp [he]); simp [Preemption.setPc] at hj'; omega
        simpa [Preemption.setPc, hji] using hg.fresh j hj'
    · simpa using hg.setPc_running (by simp [he]) (by simp)
  | wake i => exact hg.setPc_running (by simp [show (p.workers i).pc = .sleeping from he]) (by simp)
  | preempt i =>
    exact hg.setPc_running (by simp [show (p.workers i).pc = .preempting from he]) (by simp)

theorem Good.joined_step (hg : p.Good) {e : Event} {i : Nat}
    (hi : (p.workers i).joined = true) : ((p.next e).workers i).joined = true := by
  have hlt : i < p.started := by
    by_contra h
    rw [hg.fresh i (by omega)] at hi
    cases hi
  cases e with
  | startPreemption everyNMs thread =>
    cases hs : p.singleton with
    | none => simp [Preemption.next, hs, show i ≠ p.started by omega, hi]
    | some k => by_cases hik : i = k <;> simp_all [Preemption.next]
  | stopPreemption =>
    cases hs : p.singleton with
    | none => simpa [Preemption.next, hs] using hi
    | some k => by_cases hik : i = k <;> simp_all [Preemption.next]
  | joined =>
    cases hj : p.joining with
    | none => simpa [Preemption.next, hj] using hi
    | some k => by_cases hik : i = k <;> simp_all [Preemption.next]
  | check j | wake j | preempt j =>
    by_cases hij : i = j <;> simp_all [Preemption.next, Preemption.setPc]

theorem Good.no_preempt_after_join (hg : p.Good) {i : Nat} (hi : (p.workers i).joined = true)
    {es : List Event} {p' : Preemption} (hr : p.Run es p') : Event.preempt i ∉ es := by
  induction es generalizing p with
  | nil => simp
  | cons e es ih =>
    obtain ⟨he, hr⟩ := hr
    rintro (_ | ⟨_, hm⟩)
    · have : (p.workers i).pc = .preempting := he
      simp [hg.joined i hi] at this
    · exact ih (hg.step he) (hg.joined_step hi) hr hm

end Preemption

inductive PreemptionReach : Preemption → Prop
  | init : PreemptionReach .init
  | step {p : Preemption} {e : Preemption.Event} : PreemptionReach p → p.Enabled e →
      PreemptionReach (p.next e)

theorem PreemptionReach.run {p p' : Preemption} {es : List Preemption.Event}
    (hp : PreemptionReach p) (hr : p.Run es p') : PreemptionReach p' := by
  induction es generalizing p with
  | nil => obtain rfl : p' = p := hr; exact hp
  | cons e es ih => exact ih (.step hp hr.1) hr.2

theorem PreemptionReach.good {p : Preemption} (hp : PreemptionReach p) : p.Good := by
  induction hp with
  | init => exact Preemption.Good.init
  | step _ he ih => exact ih.step he

/-- In every reachable state at most one worker has not exited; `singleton_` is set exactly
while a worker has not exited or a `StopPreemption` waits in `Join` for the one that has; and
once the `StopPreemption` that stopped a worker has returned, no later step of any run is a
`Preempt` of that worker. -/
theorem preemption_single_worker :
    ∀ p : Preemption, PreemptionReach p →
      (∀ i j, (p.workers i).pc ≠ .exited → (p.workers j).pc ≠ .exited → i = j) ∧
      (p.singleton.isSome ↔ (∃ i, (p.workers i).pc ≠ .exited) ∨ p.joining.isSome) ∧
      ∀ i es p', (p.workers i).joined = true → p.Run es p' → Preemption.Event.preempt i ∉ es := by
  intro p hp
  have hg := hp.good
  refine ⟨fun i j hi hj => Option.some.inj ((hg.running i hi).symm.trans (hg.running j hj)),
    ⟨fun hs => ?_, ?_⟩, fun i es p' hi hr => hg.no_preempt_after_join hi hr⟩
  · obtain ⟨k, hk⟩ := Option.isSome_iff_exists.1 hs
    by_cases hx : (p.workers k).pc = .exited
    · exact .inr (by rw [(hg.singleton k hk).2.2 (.inl hx)]; rfl)
    · exact .inl ⟨k, hx⟩
  · rintro (⟨i, hi⟩ | hj)
    · rw [hg.running i hi]; rfl
    · obtain ⟨k, hk⟩ := Option.isSome_iff_exists.1 hj
      rw [(hg.joining k hk).1]; rfl

theorem preemption_single_worker_run :
    ∃ (p : Preemption) (es : List Preemption.Event) (p' : Preemption), PreemptionReach p ∧
      (p.workers 0).joined = true ∧ p.Run es p' ∧
      (∀ i j, (p.workers i).pc ≠ .exited → (p.workers j).pc ≠ .exited → i = j) ∧
      (p.singleton.isSome ↔ (∃ i, (p.workers i).pc ≠ .exited) ∨ p.joining.isSome) ∧
      Preemption.Event.preempt 0 ∉ es := by
  let es₀ : List Preemption.Event := [.startPreemption 10 1, .stopPreemption, .check 0, .joined]
  let p := es₀.foldl Preemption.next .init
  let es : List Preemption.Event := [.startPreemption 20 2, .check 1, .wake 1, .preempt 1]
  have h : Preemption.init.Run es₀ p ∧ (p.workers 0).joined = true ∧
      p.Run es (es.foldl Preemption.next p) := by
    simp [p, es₀, es, Preemption.Run, Preemption.Enabled, Preemption.next, Preemption.init,
      Preemption.setPc, Worker.blank]
  have hp := PreemptionReach.init.run h.1
  have hw := preemption_single_worker p hp
  exact ⟨p, es, _, hp, h.2.1, h.2.2, hw.1, hw.2.1, hw.2.2 0 es _ h.2.1 h.2.2⟩

theorem preemption_singleton_after_exit :
    ∃ p : Preemption, PreemptionReach p ∧ p.singleton.isSome ∧
      ∀ i, (p.workers i).pc = .exited := by
  let es : List Preemption.Event := [.startPreemption 10 1, .stopPreemption, .check 0]
  let p := es.foldl Preemption.next .init
  have h : Preemption.init.Run es p ∧ p.singleton.isSome ∧ ∀ i, (p.workers i).pc = .exited := by
    refine ⟨?_, ?_, fun i => ?_⟩ <;> simp [p, es, Preemption.Run, Preemption.Enabled,
      Preemption.next, Preemption.init, Preemption.setPc, Worker.blank]
    split_ifs <;> rfl
  exact ⟨p, PreemptionReach.init.run h.1, h.2⟩

end EmbeddableV8
