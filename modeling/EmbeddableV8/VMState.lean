import EmbeddableV8.Archivable
set_option autoImplicit false

/-!
`VMState` of `log-inl.h`. `logger_data_.current_state_` is not among the records
`ArchiveThread` and `RestoreThread` save, so handing the lock to another thread leaves it as it
is.
-/

namespace EmbeddableV8

structure VMStateRec where
  previous : Option Nat
  disabled : Bool
  deriving DecidableEq, Repr

/-- The logger's state stack and the threads that use it, with `VMState` objects by address. -/
structure LoggerWorld where
  /-- `logger_data_.current_state_`; `NULL` is `none`. -/
  currentState : Option Nat
  states : Nat → VMStateRec
  fresh : Nat
  scopes : ThreadId → List Nat
  holder : Option ThreadId

namespace LoggerWorld

def init : LoggerWorld where
  currentState := none
  states _ := ⟨none, true⟩
  fresh := 0
  scopes _ := []
  holder := none

inductive Event where
  | lock (t : ThreadId)
  | unlock (t : ThreadId)
  | enter (t : ThreadId)
  | exit (t : ThreadId)
  deriving DecidableEq, Repr

variable (logging : Bool) (w : LoggerWorld)

/-- `VMState::VMState` at address `v`, with `Logger::is_logging()` equal to `logging`. -/
def constructVMState (v : Nat) : VMStateRec × Option Nat :=
  if logging then (⟨w.currentState, false⟩, some v) else (⟨none, true⟩, w.currentState)

def destroyVMState (r : VMStateRec) : Option Nat :=
  if r.disabled then w.currentState else r.previous

def next : Event → LoggerWorld
  | .lock t => { w with holder := some t }
  | .unlock _ => { w with holder := none }
  | .enter t =>
    let r := constructVMState logging w w.fresh
    { w with
      states := Function.update w.states w.fresh r.1
      currentState := r.2
      fresh := w.fresh + 1
      scopes := Function.update w.scopes t (w.fresh :: w.scopes t) }
  | .exit t =>
    match w.scopes t with
    | [] => w
    | v :: vs =>
      { w with
        currentState := destroyVMState w (w.states v)
        scopes := Function.update w.scopes t vs }

/-- The lock is taken only when free and released by its holder; a thread opens and closes
`VMState` scopes only while it holds the lock, closing the innermost first. -/
def Enabled : Event → Prop
  | .lock _ => w.holder = none
  | .unlock t => w.holder = some t
  | .enter t => w.holder = some t
  | .exit t => w.holder = some t ∧ w.scopes t ≠ []

def Run : LoggerWorld → List Event → LoggerWorld → Prop
  | w, [], w' => w' = w
  | w, e :: es, w' => w.Enabled e ∧ Run (w.next logging e) es w'

end LoggerWorld

inductive LoggerReach (logging : Bool) (ok : LoggerWorld → LoggerWorld.Event → Prop) :
    LoggerWorld → Prop
  | init : LoggerReach logging ok .init
  | step {w : LoggerWorld} {e : LoggerWorld.Event} : LoggerReach logging ok w → w.Enabled e →
      ok w e → LoggerReach logging ok (w.next logging e)

namespace LoggerWorld

variable {logging : Bool}

@[simp] theorem constructVMState_true (w : LoggerWorld) (v : Nat) :
    constructVMState true w v = (⟨w.currentState, false⟩, some v) := rfl

theorem next_enter (w : LoggerWorld) (t : ThreadId) :
    w.next logging (.enter t) =
      { w with
        states := Function.update w.states w.fresh (constructVMState logging w w.fresh).1
        currentState := (constructVMState logging w w.fresh).2
        fresh := w.fresh + 1
        scopes := Function.update w.scopes t (w.fresh :: w.scopes t) } := rfl

theorem next_exit_cons {w : LoggerWorld} {t : ThreadId} {v : Nat} {vs : List Nat}
    (h : w.scopes t = v :: vs) :
    w.next logging (.exit t) =
      { w with
        currentState := destroyVMState w (w.states v)
        scopes := Function.update w.scopes t vs } := by
  simp only [next, h]

theorem next_states {w : LoggerWorld} (e : Event) {v : Nat} (hv : v < w.fresh) :
    (w.next logging e).states v = w.states v ∧ w.fresh ≤ (w.next logging e).fresh := by
  cases e with
  | enter t => simp [next, Function.update_noteq (Nat.ne_of_lt hv)]
  | exit t =>
    simp only [next]
    split <;> exact ⟨rfl, le_refl _⟩
  | _ => exact ⟨rfl, le_refl _⟩

theorem Run.states {w w' : LoggerWorld} {es : List Event} (hr : w.Run logging es w') {v : Nat}
    (hv : v < w.fresh) : w'.states v = w.states v := by
  induction es generalizing w with
  | nil => obtain rfl : w' = w := hr; rfl
  | cons e es ih =>
    obtain ⟨h₁, h₂⟩ := @next_states logging w e v hv
    rw [ih hr.2 (by omega), h₁]

def Linked (states : Nat → VMStateRec) : List Nat → Prop
  | [] => True
  | v :: vs => states v = ⟨vs.head?, false⟩ ∧ Linked states vs

theorem Linked.congr {states states' : Nat → VMStateRec} {vs : List Nat}
    (h : ∀ v ∈ vs, states' v = states v) (hl : Linked states vs) : Linked states' vs := by
  induction vs with
  | nil => trivial
  | cons v vs ih =>
    exact ⟨(h v (List.mem_cons_self v vs)).trans hl.1,
      ih (fun u hu => h u (List.mem_cons_of_mem v hu)) hl.2⟩

def UnlocksOutsideScopes (w : LoggerWorld) (e : Event) : Prop :=
  ∀ t, e = .unlock t → w.scopes t = []

/-- The logger's stack as the guards keep it when no thread releases the lock inside a scope:
only the lock holder has open scopes, they are linked, and `current_state_` is the innermost. -/
structure Nested (w : LoggerWorld) : Prop where
  others : ∀ t, w.holder ≠ some t → w.scopes t = []
  current : w.currentState = (w.holder.map fun t => (w.scopes t).head?).join
  linked : ∀ t, Linked w.states (w.scopes t)
  allocated : ∀ t, ∀ v ∈ w.scopes t, v < w.fresh

theorem Nested.init : Nested LoggerWorld.init :=
  ⟨fun _ _ => rfl, rfl, fun _ => trivial, fun _ _ h => nomatch h⟩

theorem Nested.step {w : LoggerWorld} (hn : Nested w) {e : Event} (he : w.Enabled e)
    (hok : UnlocksOutsideScopes w e) : Nested (w.next true e) := by
  cases e with
  | lock t =>
    have he : w.holder = none := he
    refine ⟨fun u _ => hn.others u (by simp [he]), ?_, hn.linked, hn.allocated⟩
    simp [next, hn.current, he, hn.others t (by simp [he])]
  | unlock t =>
    have he : w.holder = some t := he
    refine ⟨fun u _ => ?_, ?_, hn.linked, hn.allocated⟩
    · by_cases hu : u = t
      · exact hu ▸ hok t rfl
      · exact hn.others u (by simp [he, Ne.symm hu])
    · simp [next, hn.current, he, hok t rfl]
  | enter t =>
    have he : w.holder = some t := he
    have hkeep : ∀ u r, Linked (Function.update w.states w.fresh r) (w.scopes u) := fun u _ =>
      (hn.linked u).congr fun v hv => Function.update_noteq (Nat.ne_of_lt (hn.allocated u v hv)) _ _
    rw [next_enter]
    refine ⟨fun u hu => ?_, by simp [he], fun u => ?_, fun u v hv => ?_⟩
    · have hut : u ≠ t := fun h => hu (by simp [he, h])
      simp [Function.update_noteq hut, hn.others u (by simp [he, Ne.symm hut])]
    · by_cases hut : u = t
      · subst hut
        simpa [Linked, hn.current, he] using hkeep u _
      · simpa [Function.update_noteq hut] using hkeep u _
    · by_cases hut : u = t
      · subst hut
        simp only [Function.update_same, List.mem_cons] at hv
        rcases hv with rfl | hv
        · exact Nat.lt_succ_self _
        · exact Nat.lt_succ_of_lt (hn.allocated u v hv)
      · simp only [Function.update_noteq hut] at hv
        exact Nat.lt_succ_of_lt (hn.allocated u v hv)
  | exit t =>
    obtain ⟨he, hne⟩ : w.holder = some t ∧ w.scopes t ≠ [] := he
    obtain ⟨v, vs, hvs⟩ := List.exists_cons_of_ne_nil hne
    have hl : Linked w.states (v :: vs) := hvs ▸ hn.linked t
    rw [next_exit_cons hvs]
    refine ⟨fun u hu => ?_, by simp [he, destroyVMState, hl.1], fun u => ?_, fun u x hx => ?_⟩
    · have hut : u ≠ t := fun h => hu (by simp [he, h])
      simp [Function.update_noteq hut, hn.others u (by simp [he, Ne.symm hut])]
    · by_cases hut : u = t
      · subst hut; simpa using hl.2
      · simpa [Function.update_noteq hut] using hn.linked u
    · by_cases hut : u = t
      · subst hut
        simp only [Function.update_same] at hx
        exact hn.allocated u x (by simp [hvs, hx])
      · simp only [Function.update_noteq hut] at hx
        exact hn.allocated u x hx

end LoggerWorld


theorem LoggerReach.run {logging : Bool} {ok : LoggerWorld → LoggerWorld.Event → Prop}
    (hok : ∀ w e, ok w e) {w w' : LoggerWorld} {es : List LoggerWorld.Event}
    (hw : LoggerReach logging ok w) (hr : w.Run logging es w') : LoggerReach logging ok w' := by
  induction es generalizing w with
  | nil => obtain rfl : w' = w := hr; exact hw
  | cons e es ih => exact ih (.step hw hr.1 (hok w e)) hr.2

theorem LoggerReach.nested {w : LoggerWorld}
    (hw : LoggerReach true LoggerWorld.UnlocksOutsideScopes w) : LoggerWorld.Nested w := by
  induction hw with
  | init => exact LoggerWorld.Nested.init
  | step _ he hok ih => exact ih.step he hok

/-- With logging on, each `VMState` destructor restores the `current_state_` its constructor
found, over any run between the two in which the scope stays the thread's innermost; and when no
thread releases the lock inside a scope, `current_state_` is `NULL` or the innermost open
`VMState` of the thread holding the lock. -/
theorem vmState_restores_current_state :
    (∀ (w₀ w₁ : LoggerWorld) (t : ThreadId) (es : List LoggerWorld.Event),
      (w₀.next true (.enter t)).Run true es w₁ → (w₁.scopes t).head? = some w₀.fresh →
      (w₁.next true (.exit t)).currentState = w₀.currentState) ∧
    ∀ w : LoggerWorld, LoggerReach true LoggerWorld.UnlocksOutsideScopes w →
      w.currentState = none ∨
        ∃ t v, w.holder = some t ∧ (w.scopes t).head? = some v ∧ w.currentState = some v := by
  refine ⟨fun w₀ w₁ t es hr hv => ?_, fun w hw => ?_⟩
  · obtain ⟨vs, hvs⟩ : ∃ vs, w₁.scopes t = w₀.fresh :: vs := by
      cases h : w₁.scopes t with
      | nil => simp [h] at hv
      | cons v vs => simp only [h, List.head?_cons, Option.some.injEq] at hv; exact ⟨vs, hv ▸ rfl⟩
    have hst : w₁.states w₀.fresh = ⟨w₀.currentState, false⟩ := by
      rw [hr.states (by simp [LoggerWorld.next_enter])]
      simp [LoggerWorld.next_enter]
    simp [LoggerWorld.next_exit_cons hvs, LoggerWorld.destroyVMState, hst]
  · rw [hw.nested.current]
    cases w.holder with
    | none => exact .inl rfl
    | some t =>
      cases hv : (w.scopes t).head? with
      | none => exact .inl (by simp [hv])
      | some v => exact .inr ⟨t, v, rfl, hv, by simp [hv]⟩

theorem vmState_restores_current_state_runs :
    (∃ (w₀ w₁ : LoggerWorld) (t : ThreadId) (es : List LoggerWorld.Event),
      (w₀.next true (.enter t)).Run true es w₁ ∧ (w₁.scopes t).head? = some w₀.fresh ∧
      (w₁.next true (.exit t)).currentState = w₀.currentState) ∧
    ∃ w : LoggerWorld, LoggerReach true LoggerWorld.UnlocksOutsideScopes w ∧
      (w.currentState = none ∨
        ∃ t v, w.holder = some t ∧ (w.scopes t).head? = some v ∧ w.currentState = some v) := by
  let w₀ := LoggerWorld.init.next true (.lock 0)
  let w₁ := w₀.next true (.enter 0)
  let es : List LoggerWorld.Event := [.unlock 0, .lock 1, .enter 1, .exit 1, .unlock 1, .lock 0]
  have h : w₁.Run true es (es.foldl (LoggerWorld.next true) w₁) ∧
      ((es.foldl (LoggerWorld.next true) w₁).scopes 0).head? = some w₀.fresh := by
    simp [w₀, w₁, es, LoggerWorld.Run, LoggerWorld.Enabled, LoggerWorld.next, LoggerWorld.init,
      Function.update_apply]
  have hw : LoggerReach true LoggerWorld.UnlocksOutsideScopes w₁ :=
    .step (.step .init rfl fun _ h => nomatch h) rfl fun _ h => nomatch h
  exact ⟨⟨w₀, _, 0, es, h.1, h.2, vmState_restores_current_state.1 w₀ _ 0 es h.1 h.2⟩,
    _, hw, vmState_restores_current_state.2 _ hw⟩

end EmbeddableV8
