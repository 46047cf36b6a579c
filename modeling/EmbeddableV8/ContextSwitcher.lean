import EmbeddableV8.Binding
set_option autoImplicit false

namespace EmbeddableV8

structure ContextSwitcher where
  thread : ThreadId
  keepGoing : Bool
  sleepMs : Nat
  deriving DecidableEq, Repr

/-- The binding state, each context's `thread_manager_data_.singleton_`, and each context's
pending preemption request, contexts by address. -/
structure SwitcherWorld where
  binding : Binding
  singleton : Nat → Option ContextSwitcher
  preemptRequested : Nat → Bool

/-- Modelled from the spec: `Thread::Start` belongs to the platform files, which are not in the
repository. The thread it starts has its `context_key` slot unset, and so falls back to
`default_context`, as the spec's background and helper threads do. -/
def Binding.startThread (b : Binding) (t : ThreadId) : Binding :=
  { b with contextKey := Function.update b.contextKey t none }

namespace SwitcherWorld

variable (s : SwitcherWorld)

/-- Modelled from the spec: `StackGuard::Preempt` is in `execution.cc`, which is not in the
repository. It sets the preemption request in the stack guard of the context `v8_context()`
reaches on the calling thread, without taking the lock; with no context it dereferences
`NULL`. -/
def stackGuardPreempt (t : ThreadId) : Option SwitcherWorld :=
  match s.binding.v8Context t with
  | none => none
  | some c => some { s with preemptRequested := Function.update s.preemptRequested c true }

def startPreemption (t worker : ThreadId) (everyNMs : Nat) : Option SwitcherWorld :=
  match s.binding.v8Context t with
  | none => none
  | some c =>
    match s.singleton c with
    | none => some { s with
        singleton := Function.update s.singleton c (some ⟨worker, true, everyNMs⟩)
        binding := s.binding.startThread worker }
    | some sw => some { s with
        singleton := Function.update s.singleton c (some { sw with sleepMs := everyNMs }) }

def runIteration (sw : ContextSwitcher) : Option SwitcherWorld :=
  if sw.keepGoing then s.stackGuardPreempt sw.thread else some s

end SwitcherWorld

/-- In multi-instance mode with the static context `0` as `default_context`, thread `1` binds
context `1` and starts preemption; the worker starts on thread `2`, and its first request goes
to context `0`, leaving context `1` without one. -/
theorem contextSwitcher_preempts_default_context :
    ∃ (b : Binding) (binder : V8ContextBinder) (s : SwitcherWorld) (sw : ContextSwitcher)
      (s' : SwitcherWorld),
      V8ContextBinder.create ⟨false, some 0, fun _ => none⟩ 1 (some 1) false = (b, binder) ∧
      Binding.bindContextOk ⟨false, some 0, fun _ => none⟩ 1 (some 1) false ∧
      b.v8Context 1 = some 1 ∧
      SwitcherWorld.startPreemption ⟨b, fun _ => none, fun _ => false⟩ 1 2 10 = some s ∧
      s.singleton 1 = some sw ∧ s.runIteration sw = some s' ∧
      s'.preemptRequested 0 = true ∧ s'.preemptRequested 1 = false :=
  ⟨_, _, _, _, _, rfl, by decide, rfl, rfl, rfl, rfl, rfl, rfl⟩

end EmbeddableV8
