import EmbeddableV8.ThreadManager
set_option autoImplicit false

namespace EmbeddableV8

/-- The store of `tm` holds the free list `F` and the in-use list `U`. -/
structure StoreInv (tm : ThreadManagerData) (F U : List Nat) : Prop where
  freeAnchor : tm.freeAnchor = 0
  inUseAnchor : tm.inUseAnchor = 1
  two_le_fresh : 2 ≤ tm.fresh
  freeRing : Ring tm.heap 0 F
  inUseRing : Ring tm.heap 1 U
  cells : (F ++ U ++ tm.lazilyArchivedThreadState.toList).Perm (List.range' 2 (tm.fresh - 2))
  lazy_valid : tm.lazilyArchivedThread.isSome = tm.lazilyArchivedThreadState.isSome
  free_clean : ∀ p ∈ F, (tm.heap p).id = kInvalidId ∧ (tm.heap p).terminateOnRestore = false
  lazy_state : ∀ t p, tm.lazilyArchivedThread = some t → tm.lazilyArchivedThreadState = some p →
    tm.threadStateKey t = some p ∧ (tm.heap p).id = tm.threadIdKey t ∧
      (tm.heap p).terminateOnRestore = false
  key_mem : ∀ t p, tm.threadStateKey t = some p →
    p ∈ U ∨ (tm.lazilyArchivedThread = some t ∧ tm.lazilyArchivedThreadState = some p)
  inUse_key : ∀ p ∈ U, ∃ t, tm.threadStateKey t = some p ∧ (tm.heap p).id = tm.threadIdKey t
  key_inj : ∀ t u p, tm.threadStateKey t = some p → tm.threadStateKey u = some p → t = u

theorem StoreInv.init : StoreInv ThreadManagerData.init [] [] where
  freeAnchor := rfl
  inUseAnchor := rfl
  two_le_fresh := le_refl 2
  freeRing := ⟨by simp, by simp [ThreadManagerData.init, Link, ThreadState.new]⟩
  inUseRing := ⟨by simp, by simp [ThreadManagerData.init, Link, ThreadState.new]⟩
  cells := by simp [ThreadManagerData.init]
  lazy_valid := rfl
  free_clean := by simp
  lazy_state := by simp [ThreadManagerData.init]
  key_mem := by simp [ThreadManagerData.init]
  inUse_key := by simp
  key_inj := by simp [ThreadManagerData.init]

namespace StoreInv

variable {tm : ThreadManagerData} {F U : List Nat} (hs : StoreInv tm F U)
include hs

theorem nodup : (F ++ U ++ tm.lazilyArchivedThreadState.toList).Nodup :=
  hs.cells.nodup_iff.2 (List.nodup_range' _ _)

theorem mem_cells {p : Nat} (hp : p ∈ F ++ U ++ tm.lazilyArchivedThreadState.toList) :
    2 ≤ p ∧ p < tm.fresh := by
  obtain ⟨h₁, h₂⟩ := List.mem_range'_1.1 (hs.cells.subset hp)
  exact ⟨h₁, by have := hs.two_le_fresh; omega⟩

theorem free_two_le {p : Nat} (hp : p ∈ F) : 2 ≤ p ∧ p < tm.fresh :=
  hs.mem_cells (by simp [hp])

theorem inUse_two_le {p : Nat} (hp : p ∈ U) : 2 ≤ p ∧ p < tm.fresh :=
  hs.mem_cells (by simp [hp])

theorem free_not_inUse {p : Nat} (hF : p ∈ F) (hU : p ∈ U) : False := by
  have := hs.nodup
  rw [List.nodup_append, List.nodup_append] at this
  exact this.1.2.2 hF hU

theorem lazy_not_mem {p : Nat} (hl : tm.lazilyArchivedThreadState = some p) :
    p ∉ F ∧ p ∉ U := by
  have := hs.nodup
  rw [hl, Option.toList_some, List.nodup_append] at this
  exact ⟨fun h => this.2.2 (List.mem_append_left _ h) (List.mem_singleton_self p),
    fun h => this.2.2 (List.mem_append_right _ h) (List.mem_singleton_self p)⟩

theorem rings_disjoint : ∀ x ∈ (1 : Nat) :: U, x ∉ (0 : Nat) :: F := by
  intro x hx hx'
  simp only [List.mem_cons] at hx hx'
  rcases hx with rfl | hx <;> rcases hx' with h | h
  · exact absurd h (by decide)
  · exact absurd (hs.free_two_le h).1 (by decide)
  · exact absurd (hs.inUse_two_le hx).1 (by rw [h]; decide)
  · exact hs.free_not_inUse h hx

theorem inUseStates_eq : tm.inUseStates = some U := by
  have hlen := hs.cells.length_eq
  simp only [List.length_append, List.length_range'] at hlen
  unfold ThreadManagerData.inUseStates
  rw [hs.inUseAnchor]
  exact walk_ring hs.inUseRing (by omega)

theorem key_lazy {t : ThreadId} {p : Nat} (hk : tm.threadStateKey t = some p)
    (hl : tm.lazilyArchivedThread = some t) : tm.lazilyArchivedThreadState = some p := by
  cases hq : tm.lazilyArchivedThreadState with
  | none => have := hs.lazy_valid; rw [hl, hq] at this; simp at this
  | some q => rw [← hk, (hs.lazy_state t q hl hq).1]

theorem key_inUse {t : ThreadId} {p : Nat} (hk : tm.threadStateKey t = some p)
    (hl : tm.lazilyArchivedThread ≠ some t) : p ∈ U :=
  (hs.key_mem t p hk).resolve_right fun h => hl h.1

theorem lazy_none_of (hl : tm.lazilyArchivedThread = none) :
    tm.lazilyArchivedThreadState = none := by
  have := hs.lazy_valid
  rw [hl] at this
  exact Option.not_isSome_iff_eq_none.1 (by simp [← this])

theorem getFree_of_cons {p : Nat} {F' : List Nat} (hF : F = p :: F') : tm.getFree = (tm, p) := by
  have hn : (tm.heap 0).next = p := (hF ▸ hs.freeRing).next_anchor_cons
  have hp : p ≠ 0 := by have := hs.free_two_le (hF ▸ List.mem_cons_self p F'); omega
  simp [ThreadManagerData.getFree, hs.freeAnchor, hn, hp]

theorem getFree_of_nil (hF : F = []) :
    tm.getFree =
      ({ tm with
          heap := Function.update tm.heap tm.fresh (ThreadState.new tm.fresh)
          fresh := tm.fresh + 1 }, tm.fresh) := by
  have hn : (tm.heap 0).next = 0 := (hF ▸ hs.freeRing).next_anchor_nil
  simp [ThreadManagerData.getFree, hs.freeAnchor, hn]

theorem getFree_unlink (hl : tm.lazilyArchivedThreadState = none) {tm' : ThreadManagerData}
    {p : Nat} (hg : tm.getFree = (tm', p)) :
    ∃ F', Ring (tm'.heap.unlink p) 0 F' ∧ Ring (tm'.heap.unlink p) 1 U ∧
      (F' ++ U ++ [p]).Perm (List.range' 2 (tm'.fresh - 2)) ∧ 2 ≤ tm'.fresh ∧
      (∀ q ∈ F', q ∈ F) ∧ (∀ q, q ≠ p → tm'.heap q = tm.heap q) ∧
      (tm'.heap p).id = kInvalidId ∧ (tm'.heap p).terminateOnRestore = false := by
  have hcells := hs.cells
  rw [hl, Option.toList_none, List.append_nil] at hcells
  cases F with
  | nil =>
    rw [hs.getFree_of_nil rfl] at hg
    cases hg
    dsimp only
    have hout : ∀ x, x = 0 ∨ x = 1 ∨ x ∈ U → x ≠ tm.fresh := by
      rintro x (rfl | rfl | hx) <;> have := hs.two_le_fresh
      · omega
      · omega
      · have := hs.inUse_two_le hx; omega
    have hlinks : ∀ x, x ≠ tm.fresh →
        let h := Heap.unlink (Function.update tm.heap tm.fresh (ThreadState.new tm.fresh)) tm.fresh
        (h x).next = (tm.heap x).next ∧ (h x).previous = (tm.heap x).previous := fun x hx => by
      simp [Heap.unlink_eq, ThreadState.new, hx, Function.update_noteq hx]
    have hrange : tm.fresh + 1 - 2 = tm.fresh - 2 + 1 := by have := hs.two_le_fresh; omega
    refine ⟨[], hs.freeRing.congr fun x hx => hlinks x (hout x (.inl (List.mem_singleton.1 hx))),
      hs.inUseRing.congr fun x hx => hlinks x (hout x (.inr (List.mem_cons.1 hx))), ?_, by omega,
      by simp, fun q hq => Function.update_noteq hq _ _, by simp [ThreadState.new, kInvalidId],
      by simp [ThreadState.new]⟩
    rw [hrange, List.range'_concat, show 2 + 1 * (tm.fresh - 2) = tm.fresh by
      have := hs.two_le_fresh; omega]
    exact (by simpa using hcells : U.Perm _).append_right _
  | cons q F' =>
    rw [hs.getFree_of_cons rfl] at hg
    cases hg
    refine ⟨F', @Ring.unlink _ _ [] _ _ hs.freeRing,
      hs.freeRing.unlink_of_disjoint (by simp) hs.inUseRing hs.rings_disjoint,
      (List.perm_append_singleton _ _).trans (by simpa using hcells), hs.two_le_fresh,
      fun r hr => List.mem_cons_of_mem _ hr, fun _ _ => rfl,
      hs.free_clean _ (List.mem_cons_self _ _)⟩

end StoreInv

namespace StoreInv

variable {S : Subsystems} {c : Context S} {F U : List Nat} (hs : StoreInv c.tm F U)
include hs

theorem archiveThread {t : ThreadId} (hl : c.tm.lazilyArchivedThread = none)
    (hk : c.tm.threadStateKey t = none) : ∃ F', StoreInv (archiveThread t c).tm F' U := by
  obtain ⟨tm', p, hg⟩ : ∃ tm' p, c.tm.getFree = (tm', p) := ⟨_, _, rfl⟩
  obtain ⟨F', hF, hU, hcells, hfresh, hsub, hsame, hid, hterm⟩ :=
    hs.getFree_unlink (hs.lazy_none_of hl) hg
  have hp : p ∉ F' ++ U :=
    fun h => (List.nodup_append.1 (hcells.nodup_iff.2 (List.nodup_range' _ _))).2.2 h
      (List.mem_singleton_self p)
  have hkU : ∀ u q, c.tm.threadStateKey u = some q → q ∈ U :=
    fun u q h => hs.key_inUse h (by simp [hl])
  have hne : ∀ q ∈ F' ++ U, q ≠ p := fun q hq e => hp (e ▸ hq)
  refine ⟨F', ?_⟩
  simp only [EmbeddableV8.archiveThread, hg]
  exact {
    freeAnchor := hs.freeAnchor
    inUseAnchor := hs.inUseAnchor
    two_le_fresh := hfresh
    freeRing := hF.of_links fun _ => by simp
    inUseRing := hU.of_links fun _ => by simp
    cells := by simpa using hcells
    lazy_valid := rfl
    free_clean := fun q hq => by
      have hq' := hne q (List.mem_append_left _ hq)
      simpa [hq', hsame q hq'] using hs.free_clean q (hsub q hq)
    lazy_state := fun u q hu hq => by
      cases hu; cases hq
      simp [hid, hterm]
    key_mem := fun u q hq => by
      dsimp only at hq ⊢
      by_cases hu : u = t
      · subst hu
        simp only [Function.update_same, Option.some.injEq] at hq
        exact .inr ⟨rfl, hq ▸ rfl⟩
      · rw [Function.update_noteq hu] at hq
        exact .inl (hkU u q hq)
    inUse_key := fun q hq => by
      obtain ⟨u, hu, hid'⟩ := hs.inUse_key q hq
      have hut : u ≠ t := by rintro rfl; rw [hk] at hu; cases hu
      have hq' := hne q (List.mem_append_right _ hq)
      exact ⟨u, by simp [Function.update_noteq hut, hu], by simp [hq', hsame q hq', hid']⟩
    key_inj := fun u v q hu hv => by
      dsimp only at hu hv
      have hfresh : ∀ w, w ≠ t → c.tm.threadStateKey w = some q → q ≠ p :=
        fun w _ h => hne q (List.mem_append_right _ (hkU w q h))
      by_cases hut : u = t <;> by_cases hvt : v = t
      · rw [hut, hvt]
      · rw [hut, Function.update_same] at hu
        rw [Function.update_noteq hvt] at hv
        exact absurd (Option.some.inj hu).symm (hfresh v hvt hv)
      · rw [hvt, Function.update_same] at hv
        rw [Function.update_noteq hut] at hu
        exact absurd (Option.some.inj hv).symm (hfresh u hut hu)
      · rw [Function.update_noteq hut] at hu
        rw [Function.update_noteq hvt] at hv
        exact hs.key_inj u v q hu hv }

theorem eagerlyArchiveThread {p : Nat} (hl : c.tm.lazilyArchivedThreadState = some p) :
    StoreInv (eagerlyArchiveThread c).tm F (p :: U) := by
  obtain ⟨hpF, hpU⟩ := hs.lazy_not_mem hl
  obtain ⟨u, hu⟩ : ∃ u, c.tm.lazilyArchivedThread = some u :=
    Option.isSome_iff_exists.1 (hs.lazy_valid.trans (by simp [hl]))
  obtain ⟨hku, hidu, -⟩ := hs.lazy_state u p hu hl
  have hp2 := (hs.mem_cells (p := p) (by simp [hl])).1
  simp only [EmbeddableV8.eagerlyArchiveThread, hl, hs.inUseAnchor]
  exact {
    freeAnchor := hs.freeAnchor
    inUseAnchor := rfl
    two_le_fresh := hs.two_le_fresh
    freeRing := (hs.inUseRing.linkInto_of_disjoint (p := p) (by omega) hs.freeRing
      (fun x hx hx' => hs.rings_disjoint x hx' hx) (by simp [hpF]; omega)).of_links fun _ => by simp
    inUseRing := (hs.inUseRing.linkInto (by simp [hpU]; omega)).of_links fun _ => by simp
    cells := by
      simp only [Option.toList_none, List.append_nil]
      exact (List.perm_middle.trans (List.perm_append_singleton _ _).symm).trans
        (by simpa [hl] using hs.cells)
    lazy_valid := rfl
    free_clean := fun q hq => by simpa using hs.free_clean q hq
    lazy_state := fun _ _ h => by cases h
    key_mem := fun v q hq => by
      rcases hs.key_mem v q hq with h | ⟨-, h⟩
      · exact .inl (List.mem_cons_of_mem _ h)
      · rw [hl] at h
        cases h
        exact .inl (List.mem_cons_self _ _)
    inUse_key := fun q hq => by
      rcases List.mem_cons.1 hq with rfl | hq
      · exact ⟨u, hku, by simpa using hidu⟩
      · simpa using hs.inUse_key q hq
    key_inj := hs.key_inj }

theorem reclaimLazy {t : ThreadId} {p : Nat} (ht : c.tm.lazilyArchivedThread = some t)
    (hl : c.tm.lazilyArchivedThreadState = some p) :
    StoreInv (reclaimLazy t p c).tm (p :: F) U := by
  obtain ⟨hpF, hpU⟩ := hs.lazy_not_mem hl
  obtain ⟨hkt, -, hterm⟩ := hs.lazy_state t p ht hl
  have hp2 := (hs.mem_cells (p := p) (by simp [hl])).1
  have hF := hs.freeRing.of_links (k := c.tm.heap.setId p kInvalidId) fun _ => by simp
  have hU := hs.inUseRing.of_links (k := c.tm.heap.setId p kInvalidId) fun _ => by simp
  simp only [EmbeddableV8.reclaimLazy, hs.freeAnchor]
  exact {
    freeAnchor := rfl
    inUseAnchor := hs.inUseAnchor
    two_le_fresh := hs.two_le_fresh
    freeRing := hF.linkInto (by simp [hpF]; omega)
    inUseRing := hF.linkInto_of_disjoint (by omega) hU hs.rings_disjoint (by simp [hpU]; omega)
    cells := by
      simp only [Option.toList_none, List.append_nil, List.cons_append]
      exact (List.perm_append_singleton _ _).symm.trans (by simpa [hl] using hs.cells)
    lazy_valid := rfl
    free_clean := fun q hq => by
      rcases List.mem_cons.1 hq with rfl | hq
      · simp [hterm]
      · have hqp : q ≠ p := fun e => hpF (e ▸ hq)
        simpa [hqp] using hs.free_clean q hq
    lazy_state := fun _ _ h => by cases h
    key_mem := fun u q hq => by
      dsimp only at hq ⊢
      have hut : u ≠ t := by rintro rfl; simp at hq
      rw [Function.update_noteq hut] at hq
      exact .inl (hs.key_inUse hq (by rw [ht]; simpa using hut.symm))
    inUse_key := fun q hq => by
      obtain ⟨u, hu, hid⟩ := hs.inUse_key q hq
      have hut : u ≠ t := by rintro rfl; rw [hkt] at hu; cases hu; exact hpU hq
      have hqp : q ≠ p := fun e => hpU (e ▸ hq)
      exact ⟨u, by simp [Function.update_noteq hut, hu], by simp [hqp, hid]⟩
    key_inj := fun u v q hu hv => by
      dsimp only at hu hv
      by_cases hut : u = t
      · subst hut; simp at hu
      by_cases hvt : v = t
      · subst hvt; simp at hv
      rw [Function.update_noteq hut] at hu
      rw [Function.update_noteq hvt] at hv
      exact hs.key_inj u v q hu hv }

theorem moveToFree {t : ThreadId} {q : Nat} {xs ys : List Nat} (hU : U = xs ++ q :: ys)
    (hl : c.tm.lazilyArchivedThread = none) (hk : c.tm.threadStateKey t = some q) (h₁ : Heap)
    (hlinks : ∀ x, (h₁ x).next = (c.tm.heap x).next ∧ (h₁ x).previous = (c.tm.heap x).previous)
    (hpay : ∀ x, x ≠ q → (h₁ x).id = (c.tm.heap x).id ∧
      (h₁ x).terminateOnRestore = (c.tm.heap x).terminateOnRestore)
    (hterm : (h₁ q).terminateOnRestore = false) :
    StoreInv { c.tm with
      threadStateKey := Function.update c.tm.threadStateKey t none
      heap := ((h₁.setId q kInvalidId).unlink q).linkInto q c.tm.freeAnchor }
      (q :: F) (xs ++ ys) := by
  subst hU
  dsimp only
  rw [hs.freeAnchor]
  have hlazy := hs.lazy_none_of hl
  have hqU : q ∈ xs ++ q :: ys := by simp
  have hqF : q ∉ F := fun h => hs.free_not_inUse h hqU
  have hq2 := (hs.inUse_two_le hqU).1
  have hqxy : q ∉ xs ++ ys := by
    have := (List.nodup_append.1 (List.nodup_append.1 hs.nodup).1).2.1
    exact (List.nodup_cons.1 (List.nodup_middle.1 this)).1
  have hF := hs.freeRing.of_links (k := h₁.setId q kInvalidId) fun x => by simpa using hlinks x
  have hU := hs.inUseRing.of_links (k := h₁.setId q kInvalidId) fun x => by simpa using hlinks x
  have hd : ∀ x ∈ (0 : Nat) :: F, x ∉ (1 : Nat) :: (xs ++ q :: ys) :=
    fun x hx hx' => hs.rings_disjoint x hx' hx
  have hF' := hU.unlink_of_disjoint (List.mem_cons_of_mem _ hqU) hF hd
  have hkU : ∀ u r, c.tm.threadStateKey u = some r → r ∈ xs ++ q :: ys :=
    fun u r h => hs.key_inUse h (by simp [hl])
  have hsub : xs ++ ys ⊆ xs ++ q :: ys := ((List.sublist_cons_self q ys).append_left xs).subset
  have hpayload : ∀ r, r ≠ q → ((((h₁.setId q kInvalidId).unlink q).linkInto q 0) r).id =
      (c.tm.heap r).id := fun r hr => by simp [hr, (hpay r hr).1]
  exact {
    freeAnchor := rfl
    inUseAnchor := hs.inUseAnchor
    two_le_fresh := hs.two_le_fresh
    freeRing := hF'.linkInto (by simp [hqF]; omega)
    inUseRing := hF'.linkInto_of_disjoint (by omega) hU.unlink
      (fun x hx hx' => hd x hx' (List.cons_subset_cons _ hsub hx)) (by simp [hqxy]; omega)
    cells := by
      have hperm : (F ++ (xs ++ q :: ys)).Perm (q :: (F ++ (xs ++ ys))) := by
        rw [← List.append_assoc, ← List.append_assoc]
        exact List.perm_middle
      simp only [hlazy, Option.toList_none, List.append_nil, List.cons_append]
      exact hperm.symm.trans (by simpa [hlazy] using hs.cells)
    lazy_valid := hs.lazy_valid
    free_clean := fun r hr => by
      rcases List.mem_cons.1 hr with rfl | hr
      · simp [hterm]
      · have hrq : r ≠ q := fun e => hqF (e ▸ hr)
        simpa [hrq, hpay r hrq] using hs.free_clean r hr
    lazy_state := fun _ _ h => by dsimp only at h; rw [hl] at h; cases h
    key_mem := fun u r hr => by
      dsimp only at hr
      have hut : u ≠ t := by rintro rfl; simp at hr
      rw [Function.update_noteq hut] at hr
      have hrq : r ≠ q := by rintro rfl; exact hut (hs.key_inj u t r hr hk)
      exact .inl (List.mem_append.2 ((List.mem_append.1 (hkU u r hr)).imp_right fun h =>
        (List.mem_cons.1 h).resolve_left hrq))
    inUse_key := fun r hr => by
      have hrq : r ≠ q := by rintro rfl; exact hqxy hr
      obtain ⟨u, hu, hid⟩ :=
        hs.inUse_key r (hsub hr)
      have hut : u ≠ t := by rintro rfl; rw [hk] at hu; cases hu; exact hrq rfl
      exact ⟨u, by simp [Function.update_noteq hut, hu], by rw [hpayload r hrq, hid]⟩
    key_inj := fun u v r hu hv => by
      dsimp only at hu hv
      by_cases hut : u = t
      · subst hut; simp at hu
      by_cases hvt : v = t
      · subst hvt; simp at hv
      rw [Function.update_noteq hut] at hu
      rw [Function.update_noteq hvt] at hv
      exact hs.key_inj u v r hu hv }

theorem restoreState {t : ThreadId} {q : Nat} (hl : c.tm.lazilyArchivedThread = none)
    (hk : c.tm.threadStateKey t = some q) :
    ∃ U', StoreInv (restoreState t q c).tm (q :: F) U' := by
  obtain ⟨xs, ys, hU⟩ := List.append_of_mem (hs.key_inUse hk (by simp [hl]))
  refine ⟨xs ++ ys, ?_⟩
  have := hs.moveToFree hU hl hk
    (if (c.tm.heap q).terminateOnRestore then c.tm.heap.setTerminate q false else c.tm.heap)
    (fun x => by split <;> simp) (fun x hx => by split <;> simp [hx])
    (by split <;> simp_all)
  exact this

theorem terminateExecution (n : Int) : StoreInv (terminateExecution n c).tm F U := by
  have hheap : ∀ x, (EmbeddableV8.terminateExecution n c).tm.heap x =
      if x ∈ U ∧ n = (c.tm.heap x).id then { c.tm.heap x with terminateOnRestore := true }
      else c.tm.heap x := fun x => by
    simp only [EmbeddableV8.terminateExecution, hs.inUseStates_eq, Option.getD_some,
      foldl_markTerminate]
  have hlinks : ∀ x, ((EmbeddableV8.terminateExecution n c).tm.heap x).next =
      (c.tm.heap x).next ∧ ((EmbeddableV8.terminateExecution n c).tm.heap x).previous =
      (c.tm.heap x).previous := fun x => by rw [hheap]; split <;> exact ⟨rfl, rfl⟩
  have hsame : ∀ x, x ∉ U → (EmbeddableV8.terminateExecution n c).tm.heap x = c.tm.heap x :=
    fun x hx => by rw [hheap, if_neg fun h => hx h.1]
  have hid : ∀ x, ((EmbeddableV8.terminateExecution n c).tm.heap x).id = (c.tm.heap x).id :=
    fun x => by rw [hheap]; split <;> rfl
  exact {
    freeAnchor := hs.freeAnchor
    inUseAnchor := hs.inUseAnchor
    two_le_fresh := hs.two_le_fresh
    freeRing := hs.freeRing.of_links hlinks
    inUseRing := hs.inUseRing.of_links hlinks
    cells := hs.cells
    lazy_valid := hs.lazy_valid
    free_clean := fun q hq => by
      rw [hsame q fun h => hs.free_not_inUse hq h]
      exact hs.free_clean q hq
    lazy_state := fun u q hu hq => by
      rw [hsame q (hs.lazy_not_mem hq).2]
      exact hs.lazy_state u q hu hq
    key_mem := hs.key_mem
    inUse_key := fun q hq => by simpa only [hid] using hs.inUse_key q hq
    key_inj := hs.key_inj }

theorem assignId {t : ThreadId} (hk : c.tm.threadStateKey t = none) :
    StoreInv (assignId t c).tm F U := by
  have hne : ∀ u q, c.tm.threadStateKey u = some q → u ≠ t := by
    rintro u q hu rfl
    rw [hk] at hu
    cases hu
  unfold EmbeddableV8.assignId
  split
  · exact hs
  · exact { hs with
      lazy_state := fun u q hu hq => by
        obtain ⟨h₁, h₂, h₃⟩ := hs.lazy_state u q hu hq
        exact ⟨h₁, by simp [h₂, Function.update_noteq (hne u q h₁)], h₃⟩
      inUse_key := fun q hq => by
        obtain ⟨u, hu, hid⟩ := hs.inUse_key q hq
        exact ⟨u, hu, by simp [hid, Function.update_noteq (hne u q hu)]⟩ }

theorem restoreOwnState {t : ThreadId} (hl : c.tm.lazilyArchivedThread = none) :
    ∃ F' U', StoreInv (restoreOwnState t c).1.tm F' U' := by
  unfold EmbeddableV8.restoreOwnState
  split
  · exact ⟨F, U, hs⟩
  · rename_i q hk
    obtain ⟨U', h⟩ := hs.restoreState hl hk
    exact ⟨_, _, h⟩

theorem commitLazy :
    ∃ F' U', StoreInv (if c.tm.lazilyArchivedThread.isSome then
        EmbeddableV8.eagerlyArchiveThread c else c).tm F' U' ∧
      (if c.tm.lazilyArchivedThread.isSome then EmbeddableV8.eagerlyArchiveThread c
        else c).tm.lazilyArchivedThread = none ∧
      (if c.tm.lazilyArchivedThread.isSome then EmbeddableV8.eagerlyArchiveThread c
        else c).tm.threadStateKey = c.tm.threadStateKey := by
  split
  · rename_i h
    obtain ⟨p, hp⟩ := Option.isSome_iff_exists.1 (hs.lazy_valid.symm.trans h)
    refine ⟨F, p :: U, hs.eagerlyArchiveThread hp, ?_, ?_⟩ <;>
      simp [EmbeddableV8.eagerlyArchiveThread, hp]
  · exact ⟨F, U, hs, Option.not_isSome_iff_eq_none.1 ‹_›, rfl⟩

theorem restoreThread (t : ThreadId) :
    (∃ F' U', StoreInv (EmbeddableV8.restoreThread t c).1.tm F' U') ∧
    (EmbeddableV8.restoreThread t c).1.tm.lazilyArchivedThread = none ∧
    (EmbeddableV8.restoreThread t c).1.tm.threadStateKey =
      Function.update c.tm.threadStateKey t none ∧
    (EmbeddableV8.restoreThread t c).2 = (c.tm.threadStateKey t).isSome := by
  unfold EmbeddableV8.restoreThread
  split
  · rename_i ht
    obtain ⟨p, hp⟩ := Option.isSome_iff_exists.1 (hs.lazy_valid.symm.trans (by simp [ht]))
    have hk := (hs.lazy_state t p ht hp).1
    simp only [hp]
    exact ⟨⟨_, _, hs.reclaimLazy ht hp⟩, rfl, rfl, by simp [hk]⟩
  · rename_i ht
    obtain ⟨F₁, U₁, hs₁, hl₁, hk₁⟩ := hs.commitLazy
    refine ⟨hs₁.restoreOwnState hl₁, ?_⟩
    unfold EmbeddableV8.restoreOwnState
    split
    · rename_i hk
      rw [hk₁] at hk
      refine ⟨hl₁, ?_, by simp [hk]⟩
      rw [hk₁]
      funext u
      by_cases hu : u = t
      · subst hu
        simp [hk]
      · simp [hu]
    · rename_i q hk
      rw [hk₁] at hk
      exact ⟨hl₁, by simp [EmbeddableV8.restoreState, hk₁], by simp [hk]⟩

end StoreInv

end EmbeddableV8
