import EmbeddableV8.Store
import EmbeddableV8.Locker
set_option autoImplicit false

/-!
The invariant of every reachable world: the thread manager's data agrees with each thread's
place in the guard code (`Agrees`), the store is consistent (`StoreInv`), and the released
records are blank while no thread runs (`Released`).
-/

namespace EmbeddableV8

theorem unlockerOnTop_of_lockerOnTop {g : List Guard} (h : lockerOnTop g = true) :
    unlockerOnTop g = false := by
  match g, h with
  | .locker _ _ :: _, _ => rfl

/-- How the code builds the guard stack: a `Locker` takes the lock exactly when no `Locker` is
open directly below it, and is top-level exactly when no `Unlocker` is; an `Unlocker` is open
directly inside a `Locker`. -/
def GuardsOk : List Guard → Prop
  | [] => True
  | .locker h tl :: g => h = !lockerOnTop g ∧ tl = !unlockerOnTop g ∧ GuardsOk g
  | .unlocker :: g => lockerOnTop g = true ∧ GuardsOk g

namespace ThreadCtl

variable (c : ThreadCtl)

def holdsMutex : Bool :=
  match c.pc with
  | .idle => lockerOnTop c.guards
  | .lockWait _ => false
  | _ => true

def ownsLock : Bool :=
  match c.pc with
  | .idle => lockerOnTop c.guards
  | .lockWait _ | .lockOwner _ | .unlockMutex => false
  | _ => true

/-- The thread runs interpreter code inside a `Locker`, or is in the last step of a `Locker`'s
constructor. -/
def running : Bool :=
  match c.pc with
  | .idle => lockerOnTop c.guards
  | .assignId _ _ => true
  | _ => false

/-- The thread left the lock through `ArchiveThread` and has not restored since. -/
def parked : Bool :=
  match c.pc with
  | .lockWait .unlocker | .lockOwner .unlocker | .restore .unlocker => true
  | .assignId _ _ => false
  | _ => unlockerOnTop c.guards

def Fits : Prop :=
  match c.pc with
  | .idle => True
  | .lockWait k | .lockOwner k | .restore k => lockerOnTop c.guards = (k == .unlocker)
  | .assignId h tl => h = !lockerOnTop c.guards ∧ tl = !unlockerOnTop c.guards
  | .unlockOwner | .unlockMutex => lockerOnTop c.guards = false

def Ok : Prop := GuardsOk c.guards ∧ c.Fits

variable {c}

theorem holdsMutex_of_ownsLock (h : c.ownsLock = true) : c.holdsMutex = true := by
  rcases c with ⟨g, _ | _ | _ | _ | _ | _ | _⟩ <;> simp_all [ownsLock, holdsMutex]

theorem ownsLock_of_running (h : c.running = true) : c.ownsLock = true := by
  rcases c with ⟨g, _ | _ | _ | _ | _ | _ | _⟩ <;> simp_all [running, ownsLock]

theorem holdsMutex_of_running (h : c.running = true) : c.holdsMutex = true := by
  rcases c with ⟨g, _ | _ | _ | _ | _ | _ | _⟩ <;> simp_all [running, holdsMutex]

theorem parked_of_running (h : c.running = true) : c.parked = false := by
  rcases c with ⟨g, _ | _ | _ | _ | _ | _ | _⟩ <;>
    simp_all [running, parked, unlockerOnTop_of_lockerOnTop]

theorem guards_ne_nil_of_parked (hc : c.Ok) (h : c.parked = true) : c.guards ≠ [] := by
  rcases c with ⟨g, pc⟩
  rintro rfl
  cases pc with
  | lockWait k | lockOwner k | restore k =>
    cases k <;> simp_all [parked, Ok, Fits]
  | _ => simp_all [parked]

end ThreadCtl

variable {S : Subsystems}

/-- The thread manager's data says of thread `t` what its control `c` says. -/
structure Agrees (tm : ThreadManagerData) (t : ThreadId) (c : ThreadCtl) : Prop where
  ok : c.Ok
  mutex : tm.mutex = some t ↔ c.holdsMutex = true
  owner : tm.mutexOwner = some t ↔ c.ownsLock = true
  parked : (tm.threadStateKey t).isSome = c.parked
  quiet : tm.lazilyArchivedThread.isSome = true → c.running = false

/-- While no thread runs and no archive is pending, the released subsystems' records are
blank. -/
def Released (w : World S) : Prop :=
  w.ctx.tm.lazilyArchivedThread = none → (∀ t, (w.threads t).running = false) →
    ∀ k ∈ freeOrder S, w.ctx.live k = S.blank k

theorem Released.of_running {w : World S} {t : ThreadId} (ht : (w.threads t).running = true) :
    Released w :=
  fun _ hr => absurd (hr t) (by simp [ht])

structure Inv (w : World S) : Prop where
  agrees : ∀ t, Agrees w.ctx.tm t (w.threads t)
  store : ∃ F U, StoreInv w.ctx.tm F U
  released : Released w

theorem Agrees.frame {tm tm' : ThreadManagerData} {u : ThreadId} {c : ThreadCtl}
    (h : Agrees tm u c) (hm : tm'.mutex = some u ↔ tm.mutex = some u)
    (ho : tm'.mutexOwner = some u ↔ tm.mutexOwner = some u)
    (hk : (tm'.threadStateKey u).isSome = (tm.threadStateKey u).isSome)
    (hl : tm'.lazilyArchivedThread.isSome = true → c.running = false) : Agrees tm' u c :=
  ⟨h.ok, hm.trans h.mutex, ho.trans h.owner, hk.trans h.parked, hl⟩

theorem Agrees.sameLock {tm tm' : ThreadManagerData} {u : ThreadId} {c : ThreadCtl}
    (h : Agrees tm u c) (hs : tm.SameLock tm')
    (hk : (tm'.threadStateKey u).isSome = (tm.threadStateKey u).isSome)
    (hl : tm'.lazilyArchivedThread.isSome = true → c.running = false) : Agrees tm' u c :=
  h.frame (by rw [hs.mutex]) (by rw [hs.mutexOwner]) hk hl

theorem Inv.init : Inv (World.init S) where
  agrees _ := ⟨⟨trivial, trivial⟩, by simp [World.init, ThreadManagerData.init,
    ThreadCtl.holdsMutex], by simp [World.init, ThreadManagerData.init,
    ThreadCtl.ownsLock], by simp [World.init, ThreadManagerData.init,
    ThreadCtl.parked], by simp [World.init, ThreadManagerData.init]⟩
  store := ⟨[], [], StoreInv.init⟩
  released _ _ _ _ := rfl

namespace World

variable (w : World S) (t : ThreadId) (g : List Guard) (pc : Pc)

@[simp] theorem withThread_ctx : (w.withThread t g pc).ctx = w.ctx := rfl

@[simp] theorem withThread_self : (w.withThread t g pc).threads t = ⟨g, pc⟩ := by
  simp [withThread]

theorem withThread_of_ne {u : ThreadId} (h : u ≠ t) :
    (w.withThread t g pc).threads u = w.threads u := by
  simp [withThread, h]

@[simp] theorem withTm_ctx (tm : ThreadManagerData) :
    (w.withTm tm).ctx = { w.ctx with tm := tm } := rfl

@[simp] theorem withTm_threads (tm : ThreadManagerData) : (w.withTm tm).threads = w.threads := rfl

end World

namespace Inv

variable {w : World S} (hi : Inv w)
include hi

theorem not_holds_of_holds {t u : ThreadId} (ht : (w.threads t).holdsMutex = true) (hu : u ≠ t) :
    (w.threads u).holdsMutex = false := by
  have h₁ := (hi.agrees t).mutex.2 ht
  cases h : (w.threads u).holdsMutex
  · rfl
  · rw [(hi.agrees u).mutex.2 h] at h₁
    exact absurd (Option.some.inj h₁) hu

theorem not_running_of_holds {t u : ThreadId} (ht : (w.threads t).holdsMutex = true) (hu : u ≠ t) :
    (w.threads u).running = false := by
  cases h : (w.threads u).running
  · rfl
  · have := hi.not_holds_of_holds ht hu
    rw [ThreadCtl.holdsMutex_of_running h] at this
    cases this

theorem lazy_none_of_running {t : ThreadId} (ht : (w.threads t).running = true) :
    w.ctx.tm.lazilyArchivedThread = none := by
  cases h : w.ctx.tm.lazilyArchivedThread
  · rfl
  · have := (hi.agrees t).quiet (by simp [h])
    rw [ht] at this
    cases this

theorem key_none_of_running {t : ThreadId} (ht : (w.threads t).running = true) :
    w.ctx.tm.threadStateKey t = none := by
  have := (hi.agrees t).parked
  rw [ThreadCtl.parked_of_running ht] at this
  exact Option.not_isSome_iff_eq_none.1 (by simp [this])

theorem of_step {c' : Context S} {t : ThreadId} {g : List Guard} {pc : Pc}
    (ht : Agrees c'.tm t ⟨g, pc⟩)
    (hu : ∀ u, u ≠ t → Agrees w.ctx.tm u (w.threads u) → Agrees c'.tm u (w.threads u))
    (hs : ∃ F U, StoreInv c'.tm F U)
    (hr : c'.tm.lazilyArchivedThread = none → ThreadCtl.running ⟨g, pc⟩ = false →
      (∀ u, u ≠ t → (w.threads u).running = false) → ∀ k ∈ freeOrder S, c'.live k = S.blank k) :
    Inv ({ w with ctx := c' }.withThread t g pc) where
  agrees u := by
    by_cases h : u = t
    · subst h
      rw [World.withThread_self]
      exact ht
    · rw [World.withThread_of_ne _ _ _ _ h]
      exact hu u h (hi.agrees u)
  store := hs
  released hl hn := hr hl (by simpa using hn t) fun u hu => by
    simpa [World.withThread_of_ne _ _ _ _ hu] using hn u

theorem of_same_flags {c' : Context S} {t : ThreadId} {g : List Guard} {pc : Pc}
    (htm : c'.tm = w.ctx.tm) (hlive : c'.live = w.ctx.live) (hok : ThreadCtl.Ok ⟨g, pc⟩)
    (hh : ThreadCtl.holdsMutex ⟨g, pc⟩ = (w.threads t).holdsMutex)
    (ho : ThreadCtl.ownsLock ⟨g, pc⟩ = (w.threads t).ownsLock)
    (hp : ThreadCtl.parked ⟨g, pc⟩ = (w.threads t).parked)
    (hr : ThreadCtl.running ⟨g, pc⟩ = (w.threads t).running) :
    Inv ({ w with ctx := c' }.withThread t g pc) := by
  have ha := hi.agrees t
  refine hi.of_step ⟨hok, ?_, ?_, ?_, ?_⟩ (fun u _ h => htm ▸ h) (htm ▸ hi.store) ?_
  · rw [htm, hh]; exact ha.mutex
  · rw [htm, ho]; exact ha.owner
  · rw [htm, hp]; exact ha.parked
  · rw [htm, hr]; exact ha.quiet
  · intro hl ht hn
    rw [hlive]
    refine hi.released (htm ▸ hl) fun u => ?_
    by_cases h : u = t
    · exact h ▸ hr ▸ ht
    · exact hn u h

theorem lockerEnter {t : ThreadId} (he : w.Enabled (.lockerEnter t)) :
    Inv (w.next (.lockerEnter t)) := by
  rcases hc : w.threads t with ⟨g, pc⟩
  have hpc : pc = .idle := by
    have : (w.threads t).pc = .idle := he
    rwa [hc] at this
  subst hpc
  have ha := hi.agrees t
  rw [hc] at ha
  simp only [World.next, hc]
  split
  · rename_i hown
    have hl : lockerOnTop g = true := by
      simpa [ThreadCtl.ownsLock] using
        ha.owner.1 (by simpa [ThreadManagerData.isLockedByCurrentThread] using hown)
    refine hi.of_same_flags rfl rfl ⟨ha.ok.1, ?_⟩ ?_ ?_ ?_ ?_ <;>
      simp [hc, hl, ThreadCtl.Fits, ThreadCtl.holdsMutex, ThreadCtl.ownsLock, ThreadCtl.parked,
        ThreadCtl.running, unlockerOnTop_of_lockerOnTop hl]
  · rename_i hown
    have hl : lockerOnTop g = false := by
      cases h : lockerOnTop g
      · rfl
      · exact absurd (ha.owner.2 (by simpa [ThreadCtl.ownsLock] using h))
          (by simpa [ThreadManagerData.isLockedByCurrentThread] using hown)
    refine hi.of_same_flags rfl rfl ⟨ha.ok.1, ?_⟩ ?_ ?_ ?_ ?_ <;>
      simp [hc, hl, ThreadCtl.Fits, ThreadCtl.holdsMutex, ThreadCtl.ownsLock, ThreadCtl.parked,
        ThreadCtl.running]

theorem of_archive {t : ThreadId} {g : List Guard} {pc : Pc} (hrun : (w.threads t).running = true)
    (hok : ThreadCtl.Ok ⟨g, pc⟩) (hh : ThreadCtl.holdsMutex ⟨g, pc⟩ = true)
    (ho : ThreadCtl.ownsLock ⟨g, pc⟩ = true) (hp : ThreadCtl.parked ⟨g, pc⟩ = true)
    (hr : ThreadCtl.running ⟨g, pc⟩ = false) :
    Inv ({ w with ctx := archiveThread t w.ctx }.withThread t g pc) := by
  have hhold := ThreadCtl.holdsMutex_of_running hrun
  have ha := hi.agrees t
  obtain ⟨F, U, hs⟩ := hi.store
  obtain ⟨F', hs'⟩ := hs.archiveThread (hi.lazy_none_of_running hrun) (hi.key_none_of_running hrun)
  refine hi.of_step ⟨hok, ?_, ?_, ?_, fun _ => hr⟩
    (fun u hu h => h.sameLock .archiveThread ?_ fun _ => hi.not_running_of_holds hhold hu)
    ⟨F', U, hs'⟩ fun hl => by simp [archiveThread] at hl
  · simpa [hh, archiveThread] using ha.mutex.2 hhold
  · simpa [ho, archiveThread] using ha.owner.2 (ThreadCtl.ownsLock_of_running hrun)
  · simp [archiveThread, hp]
  · simp [archiveThread, Function.update_noteq hu]

theorem lockerExit {t : ThreadId} (he : w.Enabled (.lockerExit t)) :
    Inv (w.next (.lockerExit t)) := by
  rcases hc : w.threads t with ⟨g, pc⟩
  obtain ⟨hpc, hl⟩ : pc = .idle ∧ lockerOnTop g = true := by
    have : (w.threads t).pc = .idle ∧ lockerOnTop (w.threads t).guards = true := he
    rwa [hc] at this
  subst hpc
  obtain ⟨h, tl, g, rfl⟩ : ∃ h tl g', g = .locker h tl :: g' := by
    match g, hl with
    | .locker h tl :: g', _ => exact ⟨h, tl, g', rfl⟩
  have ha := hi.agrees t
  rw [hc] at ha
  have hrun : (w.threads t).running = true := by simp [hc, ThreadCtl.running]
  obtain ⟨hh, htl, hg⟩ := ha.ok.1
  cases h <;> simp only [World.next, hc]
  · -- a nested `Locker`: nothing to release
    have hl' : lockerOnTop g = true := by simpa using hh.symm
    refine hi.of_same_flags rfl rfl ⟨hg, trivial⟩ ?_ ?_ ?_ ?_ <;>
      simp [hc, hl', ThreadCtl.holdsMutex, ThreadCtl.ownsLock, ThreadCtl.parked,
        ThreadCtl.running, unlockerOnTop_of_lockerOnTop hl']
  have hl' : lockerOnTop g = false := by simpa using hh.symm
  cases tl
  · -- a non-top-level `Locker` that took the lock: `ArchiveThread`
    exact hi.of_archive hrun ⟨hg, by simpa [ThreadCtl.Fits] using hl'⟩
      (by simp [ThreadCtl.holdsMutex]) (by simp [ThreadCtl.ownsLock])
      (by simpa [ThreadCtl.parked] using htl.symm) (by simp [ThreadCtl.running])
  · -- the top-level `Locker`: `FreeThreadResources`
    have hu : unlockerOnTop g = false := by simpa using htl.symm
    refine hi.of_step ⟨⟨hg, by simpa [ThreadCtl.Fits] using hl'⟩, ?_, ?_, ?_, fun _ => rfl⟩
      (fun u _ h => h) hi.store fun _ _ _ k hk => ?_
    · simpa [ThreadCtl.holdsMutex, freeThreadResources] using
        ha.mutex.2 (by simp [ThreadCtl.holdsMutex])
    · simpa [ThreadCtl.ownsLock, freeThreadResources] using
        ha.owner.2 (by simp [ThreadCtl.ownsLock])
    · simpa [ThreadCtl.parked, freeThreadResources, hu] using ha.parked
    · simp [freeThreadResources, freeAll_apply, hk]

theorem unlockerEnter {t : ThreadId} (he : w.Enabled (.unlockerEnter t)) :
    Inv (w.next (.unlockerEnter t)) := by
  rcases hc : w.threads t with ⟨g, pc⟩
  obtain ⟨hpc, hl⟩ : pc = .idle ∧ lockerOnTop g = true := by
    have : (w.threads t).pc = .idle ∧ lockerOnTop (w.threads t).guards = true := he
    rwa [hc] at this
  subst hpc
  have hg := (hi.agrees t).ok.1
  rw [hc] at hg
  simp only [World.next, hc]
  exact hi.of_archive (by simp [hc, ThreadCtl.running, hl])
    ⟨⟨hl, hg⟩, by simp [ThreadCtl.Fits]⟩
    (by simp [ThreadCtl.holdsMutex]) (by simp [ThreadCtl.ownsLock])
    (by simp [ThreadCtl.parked]) (by simp [ThreadCtl.running])

theorem unlockerExit {t : ThreadId} (he : w.Enabled (.unlockerExit t)) :
    Inv (w.next (.unlockerExit t)) := by
  rcases hc : w.threads t with ⟨g, pc⟩
  obtain ⟨hpc, hl⟩ : pc = .idle ∧ unlockerOnTop g = true := by
    have : (w.threads t).pc = .idle ∧ unlockerOnTop (w.threads t).guards = true := he
    rwa [hc] at this
  subst hpc
  obtain ⟨g, rfl⟩ : ∃ g', g = .unlocker :: g' := by
    match g, hl with
    | .unlocker :: g', _ => exact ⟨g', rfl⟩
  have hg := (hi.agrees t).ok.1
  rw [hc] at hg
  obtain ⟨hl', hg⟩ := hg
  simp only [World.next, hc, List.tail_cons]
  refine hi.of_same_flags rfl rfl ⟨hg, ?_⟩ ?_ ?_ ?_ ?_ <;>
    simp [hc, hl', ThreadCtl.Fits, ThreadCtl.holdsMutex, ThreadCtl.ownsLock, ThreadCtl.parked,
      ThreadCtl.running]

theorem mutex_of_owner {u : ThreadId} (h : w.ctx.tm.mutexOwner = some u) :
    w.ctx.tm.mutex = some u :=
  (hi.agrees u).mutex.2 (ThreadCtl.holdsMutex_of_ownsLock ((hi.agrees u).owner.1 h))

theorem of_lock {t : ThreadId} {g : List Guard} {pc : Pc} {m o : Option ThreadId}
    (hok : ThreadCtl.Ok ⟨g, pc⟩) (hmt : m = some t ↔ ThreadCtl.holdsMutex ⟨g, pc⟩ = true)
    (hot : o = some t ↔ ThreadCtl.ownsLock ⟨g, pc⟩ = true)
    (hmu : ∀ u, u ≠ t → (m = some u ↔ w.ctx.tm.mutex = some u))
    (hou : ∀ u, u ≠ t → (o = some u ↔ w.ctx.tm.mutexOwner = some u))
    (hp : ThreadCtl.parked ⟨g, pc⟩ = (w.threads t).parked)
    (hr : ThreadCtl.running ⟨g, pc⟩ = (w.threads t).running) :
    Inv ({ w with ctx := { w.ctx with tm := { w.ctx.tm with mutex := m, mutexOwner := o } } }
      |>.withThread t g pc) := by
  obtain ⟨F, U, hs⟩ := hi.store
  have ha := hi.agrees t
  refine hi.of_step ⟨hok, hmt, hot, hp ▸ ha.parked, hr ▸ ha.quiet⟩
    (fun u hu h => h.frame (hmu u hu) (hou u hu) rfl h.quiet) ⟨F, U, { hs with }⟩
    fun hl ht hn => hi.released hl fun u => ?_
  by_cases h : u = t
  · subst h; rw [← hr]; exact ht
  · exact hn u h

theorem of_restore {t : ThreadId} {c' : Context S} {g : List Guard} {pc : Pc}
    (hown : (w.threads t).ownsLock = true) (htm : c'.tm = (restoreThread t w.ctx).1.tm)
    (hok : ThreadCtl.Ok ⟨g, pc⟩) (hh : ThreadCtl.holdsMutex ⟨g, pc⟩ = true)
    (ho : ThreadCtl.ownsLock ⟨g, pc⟩ = true) (hp : ThreadCtl.parked ⟨g, pc⟩ = false)
    (hr : ThreadCtl.running ⟨g, pc⟩ = true) :
    Inv ({ w with ctx := c' }.withThread t g pc) := by
  obtain ⟨F, U, hs⟩ := hi.store
  obtain ⟨hs', hl', hk', -⟩ := hs.restoreThread t
  have hsl : w.ctx.tm.SameLock c'.tm := by rw [htm]; exact .restoreThread
  have ha := hi.agrees t
  refine hi.of_step ⟨hok, ?_, ?_, ?_, fun h => ?_⟩
    (fun u hu h => h.sameLock hsl ?_ fun h => ?_) (htm ▸ hs') fun _ h => by rw [hr] at h; cases h
  · rw [hsl.mutex]
    exact ⟨fun _ => hh, fun _ => ha.mutex.2 (ThreadCtl.holdsMutex_of_ownsLock hown)⟩
  · rw [hsl.mutexOwner]
    exact ⟨fun _ => ho, fun _ => ha.owner.2 hown⟩
  · rw [htm, hk', hp]; simp
  · rw [htm, hl'] at h; cases h
  · rw [htm, hk', Function.update_noteq hu]
  · rw [htm, hl'] at h; cases h

theorem proceed {t : ThreadId} (he : w.Enabled (.proceed t)) : Inv (w.next (.proceed t)) := by
  rcases hc : w.threads t with ⟨g, pc⟩
  obtain ⟨hpc, hwait⟩ : pc ≠ .idle ∧ (pc.waiting = true → w.ctx.tm.mutex = none) := by
    have : (w.threads t).pc ≠ .idle ∧
      ((w.threads t).pc.waiting = true → w.ctx.tm.mutex = none) := he
    rwa [hc] at this
  have ha := hi.agrees t
  rw [hc] at ha
  obtain ⟨hg, hfit⟩ := ha.ok
  simp only [World.next, hc]
  cases pc with
  | idle => exact absurd rfl hpc
  | lockWait k =>
    have hm := hwait rfl
    refine hi.of_lock ⟨hg, hfit⟩ (by simp [ThreadCtl.holdsMutex])
      (by simpa [ThreadCtl.ownsLock] using ha.owner) (fun u hu => by simp [hm, Ne.symm hu])
      (fun _ _ => Iff.rfl) ?_ (by simp [hc, ThreadCtl.running])
    cases k <;> simp [hc, ThreadCtl.parked]
  | lockOwner k =>
    have hm : w.ctx.tm.mutex = some t := ha.mutex.2 (by simp [ThreadCtl.holdsMutex])
    refine hi.of_lock ⟨hg, hfit⟩ (by simpa [ThreadCtl.holdsMutex] using hm)
      (by simp [ThreadCtl.ownsLock]) (fun _ _ => Iff.rfl) (fun u hu => ?_) ?_
      (by simp [hc, ThreadCtl.running])
    · have : w.ctx.tm.mutexOwner ≠ some u := fun h => hu (Option.some.inj
        ((hi.mutex_of_owner h).symm.trans hm))
      simp [this, Ne.symm hu]
    · cases k <;> simp [hc, ThreadCtl.parked]
  | restore k =>
    have hown : (w.threads t).ownsLock = true := by simp [hc, ThreadCtl.ownsLock]
    obtain ⟨F, U, hs⟩ := hi.store
    have hr := (hs.restoreThread t).2.2.2
    rw [ha.parked] at hr
    cases k
    · have hl : lockerOnTop g = false := by simpa [ThreadCtl.Fits] using hfit
      dsimp only
      split <;> rename_i h <;> rw [hr] at h <;>
        simp only [ThreadCtl.parked, Bool.not_eq_true] at h <;>
        exact hi.of_restore hown rfl ⟨hg, by simp [ThreadCtl.Fits, hl, h]⟩
          (by simp [ThreadCtl.holdsMutex]) (by simp [ThreadCtl.ownsLock])
          (by simp [ThreadCtl.parked]) (by simp [ThreadCtl.running])
    · have hl : lockerOnTop g = true := by simpa [ThreadCtl.Fits] using hfit
      exact hi.of_restore hown rfl ⟨hg, trivial⟩ (by simp [ThreadCtl.holdsMutex, hl])
        (by simp [ThreadCtl.ownsLock, hl])
        (by simp [ThreadCtl.parked, unlockerOnTop_of_lockerOnTop hl])
        (by simp [ThreadCtl.running, hl])
  | assignId h tl =>
    obtain ⟨F, U, hs⟩ := hi.store
    refine hi.of_step ⟨⟨⟨hfit.1, hfit.2, hg⟩, trivial⟩, ?_, ?_, ?_, ?_⟩
      (fun u _ h => h.frame (by simp) (by simp) (by simp) (by simpa using h.quiet))
      ⟨F, U, hs.assignId (hi.key_none_of_running (by simp [hc, ThreadCtl.running]))⟩
      fun _ h => by simp [ThreadCtl.running] at h
    · simpa [ThreadCtl.holdsMutex] using ha.mutex
    · simpa [ThreadCtl.ownsLock] using ha.owner
    · simpa [ThreadCtl.parked] using ha.parked
    · simpa [ThreadCtl.running] using ha.quiet
  | unlockOwner =>
    have ho : w.ctx.tm.mutexOwner = some t := ha.owner.2 (by simp [ThreadCtl.ownsLock])
    refine hi.of_lock ⟨hg, hfit⟩ (by simpa [ThreadCtl.holdsMutex] using ha.mutex)
      (by simp [ThreadCtl.ownsLock]) (fun _ _ => Iff.rfl) (fun u hu => by simp [ho, Ne.symm hu])
      (by simp [hc, ThreadCtl.parked]) (by simp [hc, ThreadCtl.running])
  | unlockMutex =>
    have hm : w.ctx.tm.mutex = some t := ha.mutex.2 (by simp [ThreadCtl.holdsMutex])
    have hl : lockerOnTop g = false := hfit
    refine hi.of_lock ⟨hg, trivial⟩ (by simp [ThreadCtl.holdsMutex, hl])
      (by simpa [ThreadCtl.ownsLock, hl] using ha.owner) (fun u hu => by simp [hm, Ne.symm hu])
      (fun _ _ => Iff.rfl) (by simp [hc, ThreadCtl.parked]) (by simp [hc, ThreadCtl.running, hl])

theorem run {t : ThreadId} {f : Live S → Live S} (he : w.Enabled (.run t f)) :
    Inv (w.next (.run t f)) := by
  obtain ⟨hpc, hm⟩ : (w.threads t).pc = .idle ∧ w.ctx.tm.mutex = some t := he
  have hrun : (w.threads t).running = true := by
    have := (hi.agrees t).mutex.1 hm
    rcases hc : w.threads t with ⟨g, pc⟩
    rw [hc] at this hpc
    subst hpc
    simpa [ThreadCtl.holdsMutex, ThreadCtl.running] using this
  exact ⟨hi.agrees, hi.store, Released.of_running hrun⟩

theorem terminateExecution {t : ThreadId} {n : Int} : Inv (w.next (.terminateExecution t n)) := by
  obtain ⟨F, U, hs⟩ := hi.store
  exact ⟨fun u => (hi.agrees u).sameLock .terminateExecution rfl (hi.agrees u).quiet,
    ⟨F, U, hs.terminateExecution n⟩, hi.released⟩

theorem next {e : Event S} (he : w.Enabled e) : Inv (w.next e) := by
  cases e with
  | lockerEnter t => exact hi.lockerEnter he
  | lockerExit t => exact hi.lockerExit he
  | unlockerEnter t => exact hi.unlockerEnter he
  | unlockerExit t => exact hi.unlockerExit he
  | proceed t => exact hi.proceed he
  | run t f => exact hi.run he
  | terminateExecution t n => exact hi.terminateExecution

end Inv

theorem Reach.inv {ok : World S → Event S → Prop} {w : World S} (hw : Reach ok w) : Inv w := by
  induction hw with
  | init => exact .init
  | step _ he _ ih => exact ih.next he

end EmbeddableV8
