import EmbeddableV8.Ids
set_option autoImplicit false

namespace EmbeddableV8

theorem toInt32_of_lt {n : Int} (h₀ : -2 ^ 31 ≤ n) (h₁ : n < 2 ^ 31) : toInt32 n = n := by
  unfold toInt32
  omega

variable {S : Subsystems}

namespace World

variable (w : World S)

/-- The id step `e` hands out, with the thread it goes to: `++last_id_`, when the thread at the
end of `Locker::Locker` has none. -/
def assigned : Event S → Option (ThreadId × Int)
  | .proceed t =>
    match (w.threads t).pc with
    | .assignId _ _ => if w.ctx.tm.hasId t then none else some (t, intSucc w.ctx.tm.lastId)
    | _ => none
  | _ => none

def assignments : World S → List (Event S) → List (ThreadId × Int)
  | _, [] => []
  | w, e :: es => (w.assigned e).toList ++ assignments (w.next e) es

variable {w}

theorem ids_of_assigned_none {e : Event S} (he : w.Enabled e) (ha : w.assigned e = none) :
    (w.next e).ctx.tm.lastId = w.ctx.tm.lastId ∧
      (w.next e).ctx.tm.threadIdKey = w.ctx.tm.threadIdKey := by
  rcases next_ids he with hk | ⟨t, h, tl, rfl, hpc⟩
  · exact ⟨hk.1, hk.2.1⟩
  · have hid : w.ctx.tm.hasId t = true := by
      by_contra hid
      simp [assigned, hpc, hid] at ha
    simp [World.next, hpc, EmbeddableV8.assignId, hid]

theorem ids_of_assigned_some {e : Event S} {t : ThreadId} {n : Int}
    (ha : w.assigned e = some (t, n)) :
    w.ctx.tm.threadIdKey t = 0 ∧ n = intSucc w.ctx.tm.lastId ∧ (w.next e).ctx.tm.lastId = n ∧
      (w.next e).ctx.tm.threadIdKey = Function.update w.ctx.tm.threadIdKey t n := by
  cases e with
  | proceed u =>
    simp only [assigned] at ha
    split at ha
    · next h tl hpc =>
      split at ha
      · cases ha
      · next hid =>
        obtain ⟨rfl, rfl⟩ := Prod.mk.inj (Option.some.inj ha)
        simp only [ThreadManagerData.hasId, decide_eq_true_eq, not_not] at hid
        simp [World.next, hpc, EmbeddableV8.assignId, ThreadManagerData.hasId, hid]
    · cases ha
  | _ => cases ha

end World

/-- What the ids handed out so far, `log`, say of the context. -/
structure LogInv (w : World S) (log : List (ThreadId × Int)) : Prop where
  lastId : w.ctx.tm.lastId = toInt32 log.length
  ids : log.map Prod.snd = (List.range log.length).map fun k : Nat => toInt32 (k + 1)
  key_mem : ∀ t, w.ctx.tm.threadIdKey t ≠ 0 → (t, w.ctx.tm.threadIdKey t) ∈ log
  fresh : log.length < 2 ^ 31 →
    (log.map Prod.fst).Nodup ∧ ∀ p ∈ log, w.ctx.tm.threadIdKey p.1 = p.2

theorem LogInv.init : LogInv (World.init S) [] where
  lastId := rfl
  ids := rfl
  key_mem _ h := absurd rfl h
  fresh _ := ⟨List.nodup_nil, fun _ h => nomatch h⟩

namespace LogInv

variable {w : World S} {log : List (ThreadId × Int)} (hi : LogInv w log)
include hi

theorem congr {w' : World S} (hl : w'.ctx.tm.lastId = w.ctx.tm.lastId)
    (hk : w'.ctx.tm.threadIdKey = w.ctx.tm.threadIdKey) : LogInv w' log where
  lastId := hl ▸ hi.lastId
  ids := hi.ids
  key_mem := hk ▸ hi.key_mem
  fresh := hk ▸ hi.fresh

theorem ids_of_lt (hn : log.length < 2 ^ 31) :
    log.map Prod.snd = (List.range log.length).map fun k : Nat => ((k + 1 : Nat) : Int) := by
  rw [hi.ids]
  exact List.map_congr_left fun k hk => toInt32_of_lt (by omega)
    (by simp only [List.mem_range] at hk; omega)

theorem pos_of_mem (hn : log.length < 2 ^ 31) {p : ThreadId × Int} (hp : p ∈ log) : 0 < p.2 := by
  have hm : p.2 ∈ log.map Prod.snd := List.mem_map_of_mem _ hp
  rw [hi.ids_of_lt hn] at hm
  obtain ⟨k, -, hk⟩ := List.mem_map.1 hm
  omega

theorem next {e : Event S} (he : w.Enabled e) :
    LogInv (w.next e) (log ++ (w.assigned e).toList) := by
  cases ha : w.assigned e with
  | none =>
    obtain ⟨hl, hk⟩ := World.ids_of_assigned_none he ha
    simpa using hi.congr hl hk
  | some p =>
    obtain ⟨t, n⟩ := p
    obtain ⟨h0, rfl, hl, hk⟩ := World.ids_of_assigned_some ha
    have hnew : log.length < 2 ^ 31 - 1 → ∀ q ∈ log, q.1 ≠ t := fun hn q hq hqt => by
      have hkey := (hi.fresh (by omega)).2 q hq
      have := hi.pos_of_mem (by omega) hq
      rw [hqt, h0] at hkey
      omega
    refine ⟨?_, ?_, fun u hu => ?_, fun hn => ⟨?_, fun q hq => ?_⟩⟩
    · rw [hl, hi.lastId, intSucc_toInt32]
      simp
    · rw [List.map_append, hi.ids, Option.toList_some, List.length_append, List.length_singleton,
        List.range_succ, List.map_append, hi.lastId, intSucc_toInt32]
      simp
    · rw [hk] at hu ⊢
      by_cases h : u = t
      · subst h; simp
      · simp only [Function.update_noteq h] at hu ⊢
        exact List.mem_append_left _ (hi.key_mem u hu)
    · simp only [List.length_append, Option.toList_some, List.length_singleton] at hn
      simpa [List.nodup_append] using
        ⟨(hi.fresh (by omega)).1, fun m hm => hnew (by omega) _ hm rfl⟩
    · simp only [List.length_append, Option.toList_some, List.length_singleton] at hn
      rw [hk]
      rcases List.mem_append.1 hq with hq | hq
      · rw [Function.update_noteq (hnew (by omega) q hq)]
        exact (hi.fresh (by omega)).2 q hq
      · obtain rfl := List.mem_singleton.1 hq
        simp

theorem run {es : List (Event S)} {w' : World S} (hr : Run w es w') :
    LogInv w' (log ++ w.assignments es) := by
  induction es generalizing w log with
  | nil =>
    obtain rfl : w' = w := hr
    simpa [World.assignments] using hi
  | cons e es ih =>
    simpa [World.assignments] using ih (hi.next hr.1) hr.2

end LogInv

/-- The ids handed out along any run from a new context: the `k`-th is `k` as an `int`; while
fewer than `2^31` have been handed out, the `k`-th is `k`, no thread was given two, distinct
threads got distinct ones, and each is positive and still held by its thread. -/
theorem assignId_ids_of_run {es : List (Event S)} {w : World S} (hr : Run (World.init S) es w) :
    let log := (World.init S).assignments es
    log.map Prod.snd = (List.range log.length).map (fun k : Nat => toInt32 (k + 1)) ∧
      (log.length < 2 ^ 31 →
        log.map Prod.snd = (List.range log.length).map (fun k : Nat => ((k + 1 : Nat) : Int)) ∧
        (log.map Prod.fst).Nodup ∧
        (∀ p ∈ log, ∀ q ∈ log, p.2 = q.2 → p.1 = q.1) ∧
        ∀ p ∈ log, 0 < p.2 ∧ w.ctx.tm.threadIdKey p.1 = p.2) := by
  have hi : LogInv w ((World.init S).assignments es) := by
    simpa using LogInv.init.run hr
  refine ⟨hi.ids, fun hn => ⟨hi.ids_of_lt hn, (hi.fresh hn).1, fun p hp q hq hpq => ?_,
    fun p hp => ⟨hi.pos_of_mem hn hp, (hi.fresh hn).2 p hp⟩⟩⟩
  have hnd : (((World.init S).assignments es).map Prod.snd).Nodup := by
    rw [hi.ids_of_lt hn]
    exact (List.nodup_range _).map fun a b h => by omega
  rw [List.inj_on_of_nodup_map hnd hp hq hpq]

theorem assignId_ids_of_run_two_threads :
    ∃ w, Run (World.init Subsystems.word) (freshCycles 0 2) w ∧
      let log := (World.init Subsystems.word).assignments (freshCycles 0 2)
      log.map Prod.snd = (List.range log.length).map (fun k : Nat => toInt32 (k + 1)) ∧
        (log.length < 2 ^ 31 →
          log.map Prod.snd = (List.range log.length).map (fun k : Nat => ((k + 1 : Nat) : Int)) ∧
          (log.map Prod.fst).Nodup ∧
          (∀ p ∈ log, ∀ q ∈ log, p.2 = q.2 → p.1 = q.1) ∧
          ∀ p ∈ log, 0 < p.2 ∧ w.ctx.tm.threadIdKey p.1 = p.2) := by
  obtain ⟨w, hr, -⟩ := run_freshCycles (a := 0) (m := 0) 2 (w := World.init Subsystems.word)
    rfl rfl rfl (fun _ _ _ => rfl) (fun _ _ _ => rfl) (fun _ _ _ => rfl) toInt32_zero.symm
  exact ⟨w, hr, assignId_ids_of_run hr⟩

/-- After `2^31` new threads have each entered and left a top-level `Locker`, the last of them
was handed the id `-2^31`: `++last_id_` overflowed at `INT_MAX`. -/
theorem assignId_negative_after_overflow :
    ∃ es w, Run (World.init Subsystems.word) es w ∧
      (2 ^ 31 - 1, -2 ^ 31) ∈ (World.init Subsystems.word).assignments es := by
  obtain ⟨w, hr, -, htm⟩ := run_freshCycles (a := 0) (m := 0) (2 ^ 31)
    (w := World.init Subsystems.word) rfl rfl rfl (fun _ _ _ => rfl) (fun _ _ _ => rfl)
    (fun _ _ _ => rfl) toInt32_zero.symm
  have hkey : w.ctx.tm.threadIdKey (2 ^ 31 - 1) = -2 ^ 31 := by
    rw [htm]
    simp [toInt32]
  have hmem := (LogInv.init.run hr).key_mem (2 ^ 31 - 1) (by rw [hkey]; decide)
  rw [hkey, List.nil_append] at hmem
  exact ⟨freshCycles 0 (2 ^ 31), w, hr, hmem⟩

end EmbeddableV8
