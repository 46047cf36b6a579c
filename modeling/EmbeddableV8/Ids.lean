import EmbeddableV8.Invariant
set_option autoImplicit false

namespace EmbeddableV8

/-- The two's-complement `int` that holds the integer `n`. -/
def toInt32 (n : Int) : Int := (n + 2 ^ 31) % 2 ^ 32 - 2 ^ 31

theorem toInt32_zero : toInt32 0 = 0 := by decide

theorem intSucc_toInt32 (n : Int) : intSucc (toInt32 n) = toInt32 (n + 1) := by
  unfold intSucc toInt32
  split <;> omega

variable {S : Subsystems}

/-- What a step keeps when it is not `AssignId`: `last_id_`, every `thread_id_key_`, and no
thread opens its first guard. -/
def IdsKept (w w' : World S) : Prop :=
  w'.ctx.tm.lastId = w.ctx.tm.lastId ∧ w'.ctx.tm.threadIdKey = w.ctx.tm.threadIdKey ∧
    ∀ u, (w'.threads u).guards ≠ [] → (w.threads u).guards ≠ []

theorem idsKept_withThread {w : World S} {c' : Context S} {t : ThreadId} {g : List Guard}
    {pc : Pc} (hl : c'.tm.lastId = w.ctx.tm.lastId) (hk : c'.tm.threadIdKey = w.ctx.tm.threadIdKey)
    (hg : g ≠ [] → (w.threads t).guards ≠ []) :
    IdsKept w ({ w with ctx := c' }.withThread t g pc) := by
  refine ⟨hl, hk, fun u hu => ?_⟩
  by_cases h : u = t
  · subst h
    exact hg (by simpa using hu)
  · simpa [World.withThread_of_ne _ _ _ _ h] using hu

theorem next_ids {w : World S} {e : Event S} (he : w.Enabled e) :
    IdsKept w (w.next e) ∨ ∃ t h tl, e = .proceed t ∧ (w.threads t).pc = .assignId h tl := by
  cases e with
  | lockerEnter t =>
    left
    simp only [World.next]
    split <;> exact idsKept_withThread rfl rfl id
  | lockerExit t =>
    left
    simp only [World.next]
    split
    · exact idsKept_withThread rfl rfl fun _ => by simp [*]
    · exact idsKept_withThread rfl rfl fun _ => by simp [*]
    · exact idsKept_withThread rfl rfl fun _ => by simp [*]
    · exact ⟨rfl, rfl, fun _ h => h⟩
  | unlockerEnter t =>
    left
    obtain ⟨-, hl⟩ : (w.threads t).pc = .idle ∧ lockerOnTop (w.threads t).guards = true := he
    exact idsKept_withThread rfl rfl fun _ h => by rw [h] at hl; cases hl
  | unlockerExit t =>
    left
    exact idsKept_withThread rfl rfl fun h h' => h (by rw [h']; rfl)
  | proceed t =>
    simp only [World.next]
    split
    · exact .inl ⟨rfl, rfl, fun _ h => h⟩
    · exact .inl (idsKept_withThread rfl rfl id)
    · exact .inl (idsKept_withThread rfl rfl id)
    · have hs := ThreadManagerData.SameLock.restoreThread (t := t) (c := w.ctx)
      split
      · exact .inl (idsKept_withThread hs.lastId hs.threadIdKey id)
      · exact .inl (idsKept_withThread hs.lastId hs.threadIdKey id)
    · have hs := ThreadManagerData.SameLock.restoreThread (t := t) (c := w.ctx)
      exact .inl (idsKept_withThread hs.lastId hs.threadIdKey id)
    · exact .inr ⟨t, _, _, rfl, ‹_›⟩
    · exact .inl (idsKept_withThread rfl rfl id)
    · exact .inl (idsKept_withThread rfl rfl id)
  | run t f => exact .inl ⟨rfl, rfl, fun _ h => h⟩
  | terminateExecution t n => exact .inl ⟨rfl, rfl, fun _ h => h⟩

structure IdInv (w : World S) : Prop where
  lastId_nonneg : 0 ≤ w.ctx.tm.lastId
  id_range : ∀ t, 0 ≤ w.ctx.tm.threadIdKey t ∧ w.ctx.tm.threadIdKey t ≤ w.ctx.tm.lastId
  id_inj : ∀ t u, w.ctx.tm.threadIdKey t = w.ctx.tm.threadIdKey u →
    w.ctx.tm.threadIdKey t ≠ 0 → t = u
  has_id : ∀ t, (w.threads t).guards ≠ [] → w.ctx.tm.threadIdKey t ≠ 0

theorem IdInv.init : IdInv (World.init S) where
  lastId_nonneg := le_refl 0
  id_range _ := ⟨le_refl 0, le_refl 0⟩
  id_inj _ _ _ h := absurd rfl h
  has_id _ h := absurd rfl h

theorem IdInv.of_kept {w w' : World S} (hi : IdInv w) (hk : IdsKept w w') : IdInv w' := by
  obtain ⟨hl, hid, hg⟩ := hk
  exact ⟨hl ▸ hi.1, fun t => hl ▸ hid ▸ hi.2 t, hid ▸ hi.3, fun t h => hid ▸ hi.4 t (hg t h)⟩

theorem IdInv.assignId {w : World S} (hi : IdInv w) {t : ThreadId} {h tl : Bool}
    (hpc : (w.threads t).pc = .assignId h tl) (hno : w.NoIdOverflow (.proceed t)) :
    IdInv (w.next (.proceed t)) := by
  simp only [World.next, hpc]
  by_cases hid : w.ctx.tm.hasId t
  · rw [EmbeddableV8.assignId, if_pos hid]
    refine ⟨hi.1, hi.2, hi.3, fun u hu => ?_⟩
    by_cases h : u = t
    · subst h
      simpa [ThreadManagerData.hasId] using hid
    · rw [World.withThread_of_ne _ _ _ _ h] at hu
      exact hi.4 u hu
  · have hlt := hno h tl hpc (by simpa using hid)
    have hsucc : intSucc w.ctx.tm.lastId = w.ctx.tm.lastId + 1 := by
      unfold intSucc; split <;> omega
    have h0 := hi.1
    rw [EmbeddableV8.assignId, if_neg hid]
    refine ⟨?_, fun u => ?_, fun u v huv hne => ?_, fun u hu => ?_⟩
    · simp only [World.withThread_ctx, hsucc]
      omega
    · have := hi.2 u
      simp only [World.withThread_ctx, hsucc, Function.update_apply]
      split <;> omega
    · have hu := hi.2 u
      have hv := hi.2 v
      simp only [World.withThread_ctx, hsucc, Function.update_apply] at huv hne
      split_ifs at huv hne with h₁ h₂ h₂
      · rw [h₁, h₂]
      · omega
      · omega
      · exact hi.3 u v huv hne
    · by_cases h : u = t
      · subst h
        simp only [World.withThread_ctx, hsucc, Function.update_same]
        omega
      · rw [World.withThread_of_ne _ _ _ _ h] at hu
        simpa [Function.update_noteq h] using hi.4 u hu

theorem IdInv.next {w : World S} {e : Event S} (hi : IdInv w) (he : w.Enabled e)
    (hno : w.NoIdOverflow e) : IdInv (w.next e) := by
  rcases next_ids he with hk | ⟨t, h, tl, rfl, hpc⟩
  · exact hi.of_kept hk
  · exact hi.assignId hpc hno

theorem ReachableNoOverflow.idInv {w : World S} (hw : ReachableNoOverflow w) : IdInv w := by
  induction hw with
  | init => exact .init
  | step _ he hno ih => exact ih.next he hno

theorem lastId_next {w : World S} {e : Event S} (he : w.Enabled e)
    (h : w.ctx.tm.lastId < 2 ^ 31 - 1) :
    w.ctx.tm.lastId ≤ (w.next e).ctx.tm.lastId ∧
      (w.next e).ctx.tm.lastId ≤ w.ctx.tm.lastId + 1 := by
  rcases next_ids he with hk | ⟨t, h', tl, rfl, hpc⟩
  · rw [hk.1]; omega
  · simp only [World.next, hpc, World.withThread_ctx, EmbeddableV8.assignId]
    split
    · omega
    · simp only [intSucc]; split <;> omega

theorem ReachableNoOverflow.run {w w' : World S} {es : List (Event S)}
    (hw : ReachableNoOverflow w) (hr : Run w es w')
    (hlen : w.ctx.tm.lastId + es.length < 2 ^ 31 - 1) : ReachableNoOverflow w' := by
  induction es generalizing w with
  | nil => exact (hr : w' = w) ▸ hw
  | cons e es ih =>
    simp only [List.length_cons] at hlen
    have hno : w.NoIdOverflow e := by
      cases e <;> first | trivial | exact fun _ _ _ _ => by omega
    have := lastId_next hr.1 (by omega)
    exact ih (.step hw hr.1 hno) hr.2 (by omega)

theorem Reach.lastId_range {ok : World S → Event S → Prop} {w : World S} (hw : Reach ok w) :
    -2 ^ 31 ≤ w.ctx.tm.lastId ∧ w.ctx.tm.lastId < 2 ^ 31 := by
  induction hw with
  | init => constructor <;> simp [World.init, ThreadManagerData.init]
  | step _ he _ ih =>
    rcases next_ids he with hk | ⟨t, h, tl, rfl, hpc⟩
    · rw [hk.1]; exact ih
    · simp only [World.next, hpc, World.withThread_ctx, EmbeddableV8.assignId]
      split
      · exact ih
      · simp only [intSucc]; split <;> omega

theorem threadIdKey_next {w : World S} {e : Event S} (he : w.Enabled e) {t : ThreadId}
    (ht : ∀ h tl, (w.threads t).pc ≠ .assignId h tl) :
    (w.next e).ctx.tm.threadIdKey t = w.ctx.tm.threadIdKey t := by
  rcases next_ids he with hk | ⟨u, h, tl, rfl, hpc⟩
  · exact congrFun hk.2.1 t
  · have hut : u ≠ t := by rintro rfl; exact ht h tl hpc
    simp only [World.next, hpc, World.withThread_ctx, EmbeddableV8.assignId]
    split
    · rfl
    · simp [Function.update_noteq hut.symm]

/-- Thread `t`, new to the context, enters and leaves a top-level `Locker`: the two steps of
`Lock()`, `RestoreThread`, `AssignId`, `~Locker`, and the two steps of `Unlock()`. -/
def freshCycle (t : ThreadId) : List (Event S) :=
  [.lockerEnter t, .proceed t, .proceed t, .proceed t, .proceed t, .lockerExit t, .proceed t,
    .proceed t]

theorem run_freshCycle {w : World S} {t : ThreadId} (hm : w.ctx.tm.mutex = none)
    (ho : w.ctx.tm.mutexOwner = none) (hl : w.ctx.tm.lazilyArchivedThread = none)
    (hk : w.ctx.tm.threadStateKey t = none) (hid : w.ctx.tm.threadIdKey t = 0)
    (hc : w.threads t = ⟨[], .idle⟩) :
    ∃ w', Run w (freshCycle t) w' ∧ w'.threads = w.threads ∧
      w'.ctx.tm = { w.ctx.tm with
        lastId := intSucc w.ctx.tm.lastId
        threadIdKey := Function.update w.ctx.tm.threadIdKey t (intSucc w.ctx.tm.lastId) } := by
  refine ⟨(freshCycle t).foldl World.next w, ?_, ?_, ?_⟩ <;>
    simp [freshCycle, Run, World.Enabled, World.next, World.withThread, World.withTm, hc, ho, hm,
      hl, hk, hid, Pc.waiting, ThreadManagerData.isLockedByCurrentThread, restoreThread,
      restoreOwnState, EmbeddableV8.assignId, ThreadManagerData.hasId, freeThreadResources]

def freshCycles (a : ThreadId) : Nat → List (Event S)
  | 0 => []
  | n + 1 => freshCycle a ++ freshCycles (a + 1) n

theorem run_freshCycles {a : Nat} {m : Int} (n : Nat) {w : World S}
    (hm : w.ctx.tm.mutex = none) (ho : w.ctx.tm.mutexOwner = none)
    (hl : w.ctx.tm.lazilyArchivedThread = none)
    (hk : ∀ u : Nat, a ≤ u → u < a + n → w.ctx.tm.threadStateKey u = none)
    (hid : ∀ u : Nat, a ≤ u → u < a + n → w.ctx.tm.threadIdKey u = 0)
    (hc : ∀ u : Nat, a ≤ u → u < a + n → w.threads u = ⟨[], .idle⟩)
    (hlast : w.ctx.tm.lastId = toInt32 m) :
    ∃ w', Run w (freshCycles a n) w' ∧ w'.threads = w.threads ∧
      w'.ctx.tm = { w.ctx.tm with
        lastId := toInt32 (m + n)
        threadIdKey := fun u : Nat => if a ≤ u ∧ u < a + n then toInt32 (m + (u - a : Nat) + 1)
          else w.ctx.tm.threadIdKey u } := by
  induction n generalizing a m w with
  | zero =>
    refine ⟨w, rfl, rfl, ?_⟩
    have hk : (fun u : Nat => if a ≤ u ∧ u < a + 0 then toInt32 (m + (u - a : Nat) + 1)
        else w.ctx.tm.threadIdKey u) = w.ctx.tm.threadIdKey := funext fun u => if_neg (by omega)
    have hl : toInt32 (m + (0 : Nat)) = w.ctx.tm.lastId := by rw [hlast]; congr 1; omega
    rw [hk, hl]
  | succ n ih =>
    obtain ⟨w₁, hr₁, ht₁, htm₁⟩ := run_freshCycle hm ho hl (hk a (le_refl a) (by omega))
      (hid a (le_refl a) (by omega)) (hc a (le_refl a) (by omega))
    rw [hlast, intSucc_toInt32] at htm₁
    obtain ⟨w₂, hr₂, ht₂, htm₂⟩ := ih (a := a + 1) (m := m + 1) (w := w₁)
      (by rw [htm₁]; exact hm) (by rw [htm₁]; exact ho) (by rw [htm₁]; exact hl)
      (fun u h₁ h₂ => by rw [htm₁]; exact hk u (by omega) (by omega))
      (fun u h₁ h₂ => by
        rw [htm₁]; simp only [Function.update_apply, if_neg (show u ≠ a by omega)]
        exact hid u (by omega) (by omega))
      (fun u h₁ h₂ => by rw [ht₁]; exact hc u (by omega) (by omega)) (by rw [htm₁])
    refine ⟨w₂, run_append.2 ⟨w₁, hr₁, hr₂⟩, ht₂.trans ht₁, ?_⟩
    rw [htm₂, htm₁]
    dsimp only
    congr 1
    · congr 1; omega
    · funext u
      simp only [Function.update_apply]
      split_ifs <;> unfold ThreadId at * <;> first | omega | (congr 1; omega)

theorem exists_wrapped_id : ∃ w : World Subsystems.word, Reachable w ∧
    w.threads (2 ^ 32 - 1) = ⟨[.locker true true], .idle⟩ ∧
    w.ctx.tm.threadIdKey (2 ^ 32 - 1) = kInvalidId := by
  obtain ⟨w₁, hr₁, ht₁, htm₁⟩ := run_freshCycles (a := 0) (m := 0) (2 ^ 32 - 1)
    (w := World.init Subsystems.word) rfl rfl rfl (fun _ _ _ => rfl) (fun _ _ _ => rfl)
    (fun _ _ _ => rfl) toInt32_zero.symm
  let es : List (Event Subsystems.word) := [.lockerEnter (2 ^ 32 - 1), .proceed (2 ^ 32 - 1),
    .proceed (2 ^ 32 - 1), .proceed (2 ^ 32 - 1), .proceed (2 ^ 32 - 1)]
  have hid : w₁.ctx.tm.threadIdKey (2 ^ 32 - 1) = 0 := by
    rw [htm₁]; simp [World.init, ThreadManagerData.init]
  have hlast : intSucc (toInt32 4294967295) = 0 := by decide
  refine ⟨es.foldl World.next w₁, (Reachable.run .init hr₁).run (?_ : Run w₁ es _), ?_, ?_⟩ <;>
    simp [es, Run, World.Enabled, World.next, World.withThread, World.withTm, ht₁, htm₁,
      World.init, ThreadManagerData.init, Pc.waiting, ThreadManagerData.isLockedByCurrentThread,
      restoreThread, restoreOwnState, EmbeddableV8.assignId, ThreadManagerData.hasId, hid, hlast,
      kInvalidId]

/-- Thread `0` enters a top-level `Locker` and parks in an `Unlocker`; thread `1` then takes the
lock in its own top-level `Locker`, whose `RestoreThread` commits thread `0`'s archive. -/
def handOff : List (Event S) :=
  [.lockerEnter 0, .proceed 0, .proceed 0, .proceed 0, .proceed 0, .unlockerEnter 0, .proceed 0,
    .proceed 0, .lockerEnter 1, .proceed 1, .proceed 1, .proceed 1, .proceed 1]

theorem run_handOff :
    Run (World.init Subsystems.word) handOff (handOff.foldl World.next (World.init _)) ∧
      ReachableNoOverflow (handOff.foldl World.next (World.init Subsystems.word)) ∧
      (handOff.foldl World.next (World.init Subsystems.word)).threads 1 =
        ⟨[.locker true true], .idle⟩ ∧
      (handOff.foldl World.next (World.init Subsystems.word)).ctx.tm.mutex = some 1 ∧
      (handOff.foldl World.next (World.init Subsystems.word)).ctx.tm.mutexOwner = some 1 ∧
      (handOff.foldl World.next (World.init Subsystems.word)).threads 0 =
        ⟨[.unlocker, .locker true true], .idle⟩ ∧
      (handOff.foldl World.next (World.init Subsystems.word)).ctx.tm.threadStateKey 0 = some 2 ∧
      (handOff.foldl World.next (World.init Subsystems.word)).ctx.tm.lazilyArchivedThread =
        none := by
  have hr : Run (World.init Subsystems.word) handOff (handOff.foldl World.next (World.init _)) ∧
      (handOff.foldl World.next (World.init Subsystems.word)).threads 1 =
        ⟨[.locker true true], .idle⟩ ∧
      (handOff.foldl World.next (World.init Subsystems.word)).ctx.tm.mutex = some 1 ∧
      (handOff.foldl World.next (World.init Subsystems.word)).ctx.tm.mutexOwner = some 1 ∧
      (handOff.foldl World.next (World.init Subsystems.word)).threads 0 =
        ⟨[.unlocker, .locker true true], .idle⟩ ∧
      (handOff.foldl World.next (World.init Subsystems.word)).ctx.tm.threadStateKey 0 = some 2 ∧
      (handOff.foldl World.next (World.init Subsystems.word)).ctx.tm.lazilyArchivedThread =
        none := by
    simp [handOff, Run, World.Enabled, World.next, World.withThread, World.withTm, World.init,
      ThreadManagerData.init, Pc.waiting, ThreadManagerData.isLockedByCurrentThread, restoreThread,
      restoreOwnState, EmbeddableV8.assignId, ThreadManagerData.hasId, archiveThread,
      ThreadManagerData.getFree, intSucc, ThreadState.new, eagerlyArchiveThread,
      Function.update_apply]
  exact ⟨hr.1, ReachableNoOverflow.run .init hr.1 (by simp [handOff, World.init,
    ThreadManagerData.init]), hr.2⟩

end EmbeddableV8
