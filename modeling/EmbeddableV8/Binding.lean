import EmbeddableV8.Archivable
set_option autoImplicit false

namespace EmbeddableV8

/-- The binding state, with contexts by address and `NULL` as `none`. -/
structure Binding where
  usingOneV8Instance : Bool
  defaultContext : Option Nat
  contextKey : ThreadId → Option Nat

namespace Binding

variable (b : Binding) (t : ThreadId)

def v8Context : Option Nat :=
  if b.usingOneV8Instance then b.defaultContext
  else
    match b.contextKey t with
    | none => b.defaultContext
    | some c => some c

/-- `BindContext(context, bind_default)` on thread `t`, with its `ASSERT` compiled out. -/
def bindContext (context : Option Nat) (bindDefault : Bool) : Binding :=
  if bindDefault then { b with defaultContext := context }
  else { b with contextKey := Function.update b.contextKey t context }

/-- The `ASSERT` of `BindContext`. -/
def bindContextOk (context : Option Nat) (bindDefault : Bool) : Prop :=
  bindDefault = false → b.v8Context t ≠ context

instance (context : Option Nat) (bindDefault : Bool) :
    Decidable (b.bindContextOk t context bindDefault) :=
  inferInstanceAs (Decidable (_ → _))

/-- `V8Context::V8Context` of the context at `this` on thread `t`. The subsystems'
`PostConstruct` calls between the two `BindContext` calls run with `this` bound and do not
rebind. -/
def constructV8Context (this : Nat) : Binding :=
  (b.bindContext t (some this) b.usingOneV8Instance).bindContext t (b.v8Context t)
    b.usingOneV8Instance

def constructV8ContextOk (this : Nat) : Prop :=
  b.bindContextOk t (some this) b.usingOneV8Instance ∧
    (b.bindContext t (some this) b.usingOneV8Instance).bindContextOk t (b.v8Context t)
      b.usingOneV8Instance

def destroyV8Context (this : Nat) : Binding :=
  (b.bindContext t (some this) b.usingOneV8Instance).bindContext t none b.usingOneV8Instance

def destroyV8ContextOk (this : Nat) : Prop :=
  b.bindContextOk t (some this) b.usingOneV8Instance ∧
    (b.bindContext t (some this) b.usingOneV8Instance).bindContextOk t none b.usingOneV8Instance

instance (this : Nat) : Decidable (b.constructV8ContextOk t this) :=
  inferInstanceAs (Decidable (_ ∧ _))

instance (this : Nat) : Decidable (b.destroyV8ContextOk t this) :=
  inferInstanceAs (Decidable (_ ∧ _))

theorem v8Context_bind_slot (d : Option Nat) (key : ThreadId → Option Nat) (c : Option Nat)
    (u : ThreadId) : v8Context ⟨false, d, Function.update key t c⟩ u =
      if u = t then c.elim d some else v8Context ⟨false, d, key⟩ u := by
  by_cases hu : u = t
  · subst hu; cases c <;> simp [v8Context]
  · simp [v8Context, Function.update_noteq hu, hu]

/-- The constructor leaves every thread reaching what it reached before, and its `ASSERT`s
hold, provided the thread did not reach the context being constructed. -/
theorem constructV8Context_restores (this : Nat) (h : b.v8Context t ≠ some this) :
    b.constructV8ContextOk t this ∧ ∀ u, (b.constructV8Context t this).v8Context u = b.v8Context u := by
  obtain ⟨_ | _, d, key⟩ := b
  case true => exact ⟨⟨nofun, nofun⟩, fun _ => rfl⟩
  case false =>
    have hthis : v8Context ⟨false, d, Function.update key t (some this)⟩ t ≠
        v8Context ⟨false, d, key⟩ t := by
      rw [v8Context_bind_slot, if_pos rfl]; exact Ne.symm h
    refine ⟨⟨fun _ => h, fun _ => hthis⟩, fun u => ?_⟩
    simp only [constructV8Context, bindContext, Bool.false_eq_true, if_false]
    rw [v8Context_bind_slot]
    split_ifs with hu
    · subst hu
      cases hk : key u <;> cases d <;> simp [v8Context, hk]
    · rw [v8Context_bind_slot, if_neg hu]

theorem constructV8Context_restores_default :
    (⟨false, some 0, fun _ => none⟩ : Binding).v8Context 0 ≠ some 1 ∧
      Binding.constructV8ContextOk ⟨false, some 0, fun _ => none⟩ 0 1 ∧
        ∀ u, (Binding.constructV8Context ⟨false, some 0, fun _ => none⟩ 0 1).v8Context u =
          (⟨false, some 0, fun _ => none⟩ : Binding).v8Context u :=
  have h : (⟨false, some 0, fun _ => none⟩ : Binding).v8Context 0 ≠ some 1 := by decide
  ⟨h, constructV8Context_restores _ 0 1 h⟩

end Binding

structure V8ContextBinder where
  v8context : Option Nat
  boundDefault : Bool

namespace V8ContextBinder

def create (b : Binding) (t : ThreadId) (v8context : Option Nat) (bindDefault : Bool) :
    Binding × V8ContextBinder :=
  (b.bindContext t v8context bindDefault, ⟨v8context, bindDefault⟩)

def destroy (binder : V8ContextBinder) (b : Binding) (t : ThreadId) : Binding :=
  b.bindContext t none binder.boundDefault

end V8ContextBinder

/-- In multi-instance mode with the static context `0` as `default_context`, thread `0` binds
context `1` with a `V8ContextBinder`. Inside that binding, the lifetime of a nested binder of
context `2`, and the destruction of context `2`, each end with thread `0` reaching context `0`;
in single-instance mode the destruction of context `2` while context `1` is the default ends
with `NULL`. -/
theorem rebinding_scopes_lose_outer_binding :
    ∃ (b₁ : Binding) (outer : V8ContextBinder),
      V8ContextBinder.create ⟨false, some 0, fun _ => none⟩ 0 (some 1) false = (b₁, outer) ∧
      Binding.bindContextOk ⟨false, some 0, fun _ => none⟩ 0 (some 1) false ∧
      b₁.v8Context 0 = some 1 ∧
      (∃ (b₂ : Binding) (inner : V8ContextBinder),
        V8ContextBinder.create b₁ 0 (some 2) false = (b₂, inner) ∧
        b₁.bindContextOk 0 (some 2) false ∧ b₂.bindContextOk 0 none inner.boundDefault ∧
        (inner.destroy b₂ 0).v8Context 0 = some 0) ∧
      (b₁.destroyV8ContextOk 0 2 ∧ (b₁.destroyV8Context 0 2).v8Context 0 = some 0) ∧
      Binding.destroyV8ContextOk ⟨true, some 1, fun _ => none⟩ 0 2 ∧
        (Binding.destroyV8Context ⟨true, some 1, fun _ => none⟩ 0 2).v8Context 0 = none :=
  ⟨_, _, rfl, by decide, rfl, ⟨_, _, rfl, by decide, by decide, rfl⟩, ⟨by decide, rfl⟩,
    ⟨nofun, nofun⟩, rfl⟩

end EmbeddableV8
