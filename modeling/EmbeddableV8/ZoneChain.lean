import EmbeddableV8.Zone
set_option autoImplicit false

namespace EmbeddableV8

/-- Following `next_` from `p` through live headers visits the segments `C`, in order, and
then reaches `NULL`. -/
def Memory.Chain (m : Memory) : Option Int → List (Int × Segment) → Prop
  | p, [] => p = none
  | p, (a, s) :: C => p = some a ∧ m.read a = some s ∧ m.Chain s.next C

def Memory.chain (m : Memory) : Nat → Option Int → Option (List (Int × Segment))
  | _, none => some []
  | 0, some _ => none
  | n + 1, some a => do
    let s ← m.read a
    let C ← m.chain n s.next
    some ((a, s) :: C)

def ZoneData.segments (z : ZoneData) : Option (List (Int × Segment)) :=
  z.mem.chain z.mem.length z.head

namespace Memory

variable {m m' : Memory}

theorem Chain.read_of_mem {p : Option Int} {C : List (Int × Segment)} (h : m.Chain p C)
    {x : Int × Segment} (hx : x ∈ C) : m.read x.1 = some x.2 := by
  induction C generalizing p with
  | nil => cases hx
  | cons y C ih =>
    obtain ⟨-, hy, hC⟩ := h
    rcases List.mem_cons.1 hx with rfl | hx
    · exact hy
    · exact ih hC hx

theorem Chain.congr {p : Option Int} {C : List (Int × Segment)} (h : m.Chain p C)
    (hm : ∀ x ∈ C, m'.read x.1 = m.read x.1) : m'.Chain p C := by
  induction C generalizing p with
  | nil => exact h
  | cons y C ih =>
    obtain ⟨hp, hy, hC⟩ := h
    exact ⟨hp, (hm y (List.mem_cons_self _ _)).trans hy,
      ih hC fun x hx => hm x (List.mem_cons_of_mem _ hx)⟩

theorem Chain.length_le {p : Option Int} {C : List (Int × Segment)} (h : m.Chain p C)
    (hnd : (C.map Prod.fst).Nodup) : C.length ≤ m.length := by
  have hsub : C.map Prod.fst ⊆ m.map Prod.fst := fun a ha => by
    obtain ⟨x, hx, rfl⟩ := List.mem_map.1 ha
    exact mem_keys_of_read m (h.read_of_mem hx)
  simpa using (List.subperm_of_subset hnd hsub).length_le

theorem chain_of_Chain {p : Option Int} {C : List (Int × Segment)} (h : m.Chain p C) {n : Nat}
    (hn : C.length ≤ n) : m.chain n p = some C := by
  induction C generalizing p n with
  | nil => rw [(h : p = none)]; cases n <;> rfl
  | cons y C ih =>
    obtain ⟨a, s⟩ := y
    obtain ⟨rfl, hs, hC⟩ := h
    obtain ⟨n, rfl⟩ : ∃ n', n = n' + 1 := ⟨n - 1, by simp at hn; omega⟩
    simp [chain, hs, ih hC (by simpa using hn)]

end Memory

theorem ZoneData.segments_of_Chain {z : ZoneData} {C : List (Int × Segment)}
    (h : z.mem.Chain z.head C) (hnd : (C.map Prod.fst).Nodup) : z.segments = some C :=
  Memory.chain_of_Chain h (h.length_le hnd)

variable (K : ZoneConstants)

/-- What `DeleteAll` is to leave of the chain `C`, with the segments it deletes: the first
segment of at most `kMaximumKeptSegmentSize` bytes alone on the chain with `next_` cleared and
the free space from its aligned start to its end, and each other segment deleted once, in chain
order; without such a segment, an empty chain, `position_ = limit_ = 0`, and every segment
deleted once. -/
def DeleteAllSpec (C : List (Int × Segment)) (z : ZoneData) (deleted : List Int) : Prop :=
  match C.find? fun x => decide (x.2.size ≤ K.kMaximumKeptSegmentSize) with
  | some (k, s) => deleted = (C.map Prod.fst).filter (· ≠ k) ∧
      z.segments = some [(k, ⟨none, s.size⟩)] ∧
      z.position = roundUp (k + K.segmentHeaderSize) K.kAlignment ∧ z.position ≤ z.limit ∧
      z.limit = k + s.size
  | none => deleted = C.map Prod.fst ∧ z.segments = some [] ∧ z.position = 0 ∧ z.limit = 0

variable {K}

theorem findKeep_chain {m : Memory} {C : List (Int × Segment)} :
    ∀ {p : Option Int} {n : Nat}, m.Chain p C → C.length ≤ n →
      findKeep K m n p =
        some ((C.find? fun x => decide (x.2.size ≤ K.kMaximumKeptSegmentSize)).map Prod.fst) := by
  induction C with
  | nil => intro p n h _; rw [(h : p = none)]; cases n <;> rfl
  | cons y C ih =>
    intro p n h hn
    obtain ⟨a, s⟩ := y
    obtain ⟨rfl, hs, hC⟩ := h
    obtain ⟨n, rfl⟩ : ∃ n', n = n' + 1 := ⟨n - 1, by simp at hn; omega⟩
    by_cases hk : s.size ≤ K.kMaximumKeptSegmentSize
    · simp [findKeep, hs, hk, not_lt.2 hk]
    · simp [findKeep, hs, hk, lt_of_not_le hk, ih hC (by simpa using hn)]

theorem deleteSegments_chain (keep : Option Int) {C : List (Int × Segment)} :
    ∀ {p : Option Int} {n : Nat} {z : ZoneData} {X : Int}, z.mem.Chain p C →
      (C.map Prod.fst).Nodup → C.length ≤ n → z.segmentBytesAllocated = toInt32 X →
      ∃ z', deleteSegments keep n p z =
          some (z', (C.filter fun x => decide (some x.1 ≠ keep)).map Prod.fst) ∧
        z'.position = z.position ∧ z'.limit = z.limit ∧ z'.head = z.head ∧
        z'.segmentBytesAllocated =
          toInt32 (X - ((C.filter fun x => decide (some x.1 ≠ keep)).map fun x => x.2.size).sum) ∧
        ∀ b, z'.mem.read b = if b ∈ C.map Prod.fst then
          (if some b = keep then (z.mem.read b).map fun s => ⟨none, s.size⟩ else none)
          else z.mem.read b := by
  induction C with
  | nil =>
    intro p n z X h _ _ hX
    rw [(h : p = none)]
    exact ⟨z, by cases n <;> rfl, rfl, rfl, rfl, by simp [hX], fun b => by simp⟩
  | cons y C ih =>
    intro p n z X h hnd hn hX
    obtain ⟨a, s⟩ := y
    obtain ⟨rfl, hs, hC⟩ := h
    obtain ⟨n, rfl⟩ : ∃ n', n = n' + 1 := ⟨n - 1, by simp at hn; omega⟩
    simp only [List.map_cons, List.nodup_cons] at hnd
    have hne : ∀ x ∈ C, x.1 ≠ a := fun x hx h => hnd.1 (h ▸ List.mem_map_of_mem _ hx)
    by_cases hk : some a = keep
    · obtain ⟨z', hd, hp, hl, hh, hc, hr⟩ :=
        ih (z := { z with mem := z.mem.write a ⟨none, s.size⟩ })
          (hC.congr fun x hx => by rw [Memory.read_write, if_neg (hne x hx)]) hnd.2
          (by simpa using hn) hX
      refine ⟨z', by simpa [deleteSegments, hs, hk] using hd, hp, hl, hh, by simpa [hk] using hc,
        fun b => ?_⟩
      rw [hr b]
      by_cases hb : b = a
      · subst hb; simp [Memory.read_write, hnd.1, hk, hs]
      · by_cases hm : b ∈ C.map Prod.fst <;> simp [Memory.read_write, hb, hm]
    · have hX' : (z.segmentDelete a s.size).segmentBytesAllocated = toInt32 (X - s.size) := by
        simp [ZoneData.segmentDelete, ZoneData.adjustSegmentBytesAllocated, hX,
          toInt32_add_toInt32, Int.sub_eq_add_neg]
      obtain ⟨z', hd, hp, hl, hh, hc, hr⟩ := ih (z := z.segmentDelete a s.size)
        (hC.congr fun x hx => by
          rw [ZoneData.segmentDelete, Memory.read_free, if_neg (hne x hx)])
        hnd.2 (by simpa using hn) hX'
      refine ⟨z', by simp [deleteSegments, hs, hk, hd], hp, hl, hh, ?_, fun b => ?_⟩
      · rw [hc]
        simp only [List.filter_cons, hk, ne_eq, not_false_eq_true, decide_True, if_true,
          List.map_cons, List.sum_cons]
        congr 1
        omega
      · rw [hr b]
        by_cases hb : b = a
        · subst hb; simp [ZoneData.segmentDelete, Memory.read_free, hnd.1, hk]
        · by_cases hm : b ∈ C.map Prod.fst <;>
            simp [ZoneData.segmentDelete, Memory.read_free, hb, hm]

theorem sum_size_eq_add_filter {C : List (Int × Segment)} (hnd : (C.map Prod.fst).Nodup)
    {k : Int} {s : Segment} (hk : (k, s) ∈ C) :
    (C.map fun x => x.2.size).sum =
      s.size + ((C.filter fun x => decide (some x.1 ≠ some k)).map fun x => x.2.size).sum := by
  induction C with
  | nil => cases hk
  | cons y C ih =>
    obtain ⟨a, t⟩ := y
    simp only [List.map_cons, List.nodup_cons] at hnd
    by_cases ha : a = k
    · subst ha
      have hC : ∀ x ∈ C, x.1 ≠ a := fun x hx h => hnd.1 (h ▸ List.mem_map_of_mem _ hx)
      obtain rfl : t = s := by
        rcases List.mem_cons.1 hk with h | h
        · exact (Prod.mk.inj h).2.symm
        · exact absurd rfl (hC _ h)
      rw [List.filter_cons_of_neg (by simp), List.filter_eq_self.2 (by simpa using hC)]
      simp
    · have hk' : (k, s) ∈ C := by
        rcases List.mem_cons.1 hk with h | h
        · exact absurd (Prod.mk.inj h).1.symm ha
        · exact h
      rw [List.filter_cons_of_pos (by simpa using ha)]
      simp only [List.map_cons, List.sum_cons, ih hnd.2 hk']
      omega

variable (K) in
structure ZoneInv (z : ZoneData) (C : List (Int × Segment)) : Prop where
  chain : z.mem.Chain z.head C
  nodup : (C.map Prod.fst).Nodup
  live : ∀ a, (z.mem.read a).isSome → a ∈ C.map Prod.fst
  counter : z.segmentBytesAllocated = toInt32 (C.map fun x => x.2.size).sum
  size_ge : ∀ x ∈ C, K.kMinimumSegmentSize ≤ x.2.size

variable (K) in
theorem ZoneInv.init : ZoneInv K ZoneData.init [] where
  chain := rfl
  nodup := List.nodup_nil
  live _ h := by simp [ZoneData.init] at h
  counter := rfl
  size_ge _ h := nomatch h

namespace ZoneInv

variable {z : ZoneData} {C : List (Int × Segment)} (hi : ZoneInv K z C)
include hi

theorem headSize_eq : z.headSize = some ((C.head?.map fun x => x.2.size).getD 0) := by
  obtain ⟨chain, -⟩ := hi
  cases C with
  | nil => rw [ZoneData.headSize, (chain : z.head = none)]; rfl
  | cons y C =>
    obtain ⟨hh, hs, -⟩ := chain
    simp [ZoneData.headSize, hh, hs]

theorem newExpand {size block : Int} {z' : ZoneData} {r : Option Int}
    (hfresh : z.mem.read block = none) (hz : z.newExpand K size (some block) = some (z', r)) :
    ZoneInv K z' ((block, ⟨z.head, newSegmentSize K size
      ((C.head?.map fun x => x.2.size).getD 0)⟩) :: C) := by
  rw [newExpand_some block hi.headSize_eq] at hz
  obtain ⟨rfl, -⟩ := Prod.mk.inj (Option.some.inj hz)
  have hne : ∀ x ∈ C, x.1 ≠ block := fun x hx h => by
    rw [← h, hi.chain.read_of_mem hx] at hfresh
    cases hfresh
  refine ⟨⟨rfl, by simp, hi.chain.congr fun x hx => by simp [Ne.symm (hne x hx)]⟩, ?_,
    fun a ha => ?_, ?_, ?_⟩
  · simpa using ⟨fun y hy => hne _ hy rfl, hi.nodup⟩
  · by_cases hab : block = a
    · simp [hab]
    · simp only [Memory.read_cons, hab, if_false] at ha
      exact List.mem_cons_of_mem _ (hi.live a ha)
  · simp only [List.map_cons, List.sum_cons, hi.counter, toInt32_add_toInt32]
    congr 1
    omega
  · intro x hx
    rcases List.mem_cons.1 hx with rfl | hx
    · exact newSegmentSize_ge_minimum _ _
    · exact hi.size_ge x hx

theorem deleteAll : ∃ z' deleted, z.deleteAll K = some (z', deleted) ∧
    DeleteAllSpec K C z' deleted ∧ ∃ C', ZoneInv K z' C' := by
  have hlen := hi.chain.length_le hi.nodup
  have hkeep := findKeep_chain (K := K) hi.chain hlen
  have hgone : ∀ a, a ∉ C.map Prod.fst → z.mem.read a = none := fun a ha =>
    Option.not_isSome_iff_eq_none.1 fun h => ha (hi.live a h)
  cases hf : C.find? fun x => decide (x.2.size ≤ K.kMaximumKeptSegmentSize) with
  | none =>
    obtain ⟨z', hd, hp, hl, hh, hc, hr⟩ :=
      deleteSegments_chain none hi.chain hi.nodup hlen hi.counter
    have hall : C.filter (fun x => decide (some x.1 ≠ none)) = C := List.filter_eq_self.2 (by simp)
    rw [hall] at hd hc
    refine ⟨{ z' with position := 0, limit := 0, head := none }, C.map Prod.fst,
      by simp [ZoneData.deleteAll, hkeep, hf, hd], by simp [DeleteAllSpec, hf, ZoneData.segments,
        Memory.chain], [], rfl, List.nodup_nil, fun a ha => ?_, by simp [hc], fun _ h => nomatch h⟩
    by_cases hm : a ∈ C.map Prod.fst
    · simp [hr a, hm] at ha
    · simp [hr a, hm, hgone a hm] at ha
  | some ks =>
    obtain ⟨k, s⟩ := ks
    have hmem : (k, s) ∈ C := List.mem_of_find?_eq_some hf
    have hsize : K.kMinimumSegmentSize ≤ s.size := hi.size_ge _ hmem
    obtain ⟨z', hd, hp, hl, hh, hc, hr⟩ :=
      deleteSegments_chain (some k) hi.chain hi.nodup hlen hi.counter
    have hk : z'.mem.read k = some ⟨none, s.size⟩ := by
      simp [hr k, List.mem_map_of_mem Prod.fst hmem, hi.chain.read_of_mem hmem]
    have hchain : Memory.Chain z'.mem (some k) [(k, ⟨none, s.size⟩)] := ⟨rfl, hk, rfl⟩
    have hround := roundUp_le K.alignment_pos (k + K.segmentHeaderSize)
    have hfits := K.minimum_fits
    refine ⟨{ z' with
        position := roundUp (k + K.segmentHeaderSize) K.kAlignment
        limit := k + s.size
        head := some k }, (C.filter fun x => decide (some x.1 ≠ some k)).map Prod.fst,
      by simp [ZoneData.deleteAll, hkeep, hf, hd, hk], ?_,
      [(k, ⟨none, s.size⟩)], hchain, by simp, fun a ha => ?_, ?_, by simpa using hsize⟩
    · simp only [DeleteAllSpec, hf]
      refine ⟨by rw [List.filter_map]; simp [Function.comp_def], ZoneData.segments_of_Chain hchain
        (by simp), trivial, by omega, trivial⟩
    · by_cases hm : a ∈ C.map Prod.fst
      · by_cases hak : a = k
        · simp [hak]
        · simp [hr a, hm, hak] at ha
      · simp [hr a, hm, hgone a hm] at ha
    · simp [hc, sum_size_eq_add_filter hi.nodup hmem]

end ZoneInv

variable (K) in
/-- The zones reachable from `ZoneData::ZoneData()` by `NewExpand` calls, for which `malloc`
hands out a block that is not live, and `DeleteAll` calls. A `NewExpand` whose `malloc` returns
`NULL` calls `V8::FatalProcessOutOfMemory`, which does not return to the zone. -/
inductive ZoneReach : ZoneData → Prop
  | init : ZoneReach ZoneData.init
  | newExpand {z z' : ZoneData} {size block : Int} {r : Option Int} : ZoneReach z →
      z.mem.read block = none → z.newExpand K size (some block) = some (z', r) → ZoneReach z'
  | deleteAll {z z' : ZoneData} {deleted : List Int} : ZoneReach z →
      z.deleteAll K = some (z', deleted) → ZoneReach z'

theorem ZoneReach.inv {z : ZoneData} (hz : ZoneReach K z) : ∃ C, ZoneInv K z C := by
  induction hz with
  | init => exact ⟨[], .init K⟩
  | newExpand _ hfresh hn ih =>
    obtain ⟨C, hi⟩ := ih
    exact ⟨_, hi.newExpand hfresh hn⟩
  | deleteAll _ hd ih =>
    obtain ⟨C, hi⟩ := ih
    obtain ⟨z'', d, hd', -, C', hi'⟩ := hi.deleteAll
    obtain ⟨rfl, -⟩ := Prod.mk.inj (Option.some.inj (hd.symm.trans hd'))
    exact ⟨C', hi'⟩

/-- Over any sequence of `NewExpand` and `DeleteAll` calls, the chain from `head_` is finite
with distinct segments, which are exactly the live blocks; `segment_bytes_allocated_` is the sum
of their sizes as an `int`; and `DeleteAll` finishes, keeping the first segment of at most
`kMaximumKeptSegmentSize` bytes and deleting each other one once. -/
theorem zone_chain_accounting {z : ZoneData} (hz : ZoneReach K z) :
    ∃ C, z.segments = some C ∧ (C.map Prod.fst).Nodup ∧
      (∀ a, (z.mem.read a).isSome ↔ a ∈ C.map Prod.fst) ∧
      z.segmentBytesAllocated = toInt32 (C.map fun x => x.2.size).sum ∧
      ∃ z' deleted, z.deleteAll K = some (z', deleted) ∧ DeleteAllSpec K C z' deleted := by
  obtain ⟨C, hi⟩ := hz.inv
  obtain ⟨z', deleted, hd, hspec, -⟩ := hi.deleteAll
  refine ⟨C, ZoneData.segments_of_Chain hi.chain hi.nodup, hi.nodup,
    fun a => ⟨hi.live a, fun ha => ?_⟩, hi.counter, z', deleted, hd, hspec⟩
  obtain ⟨x, hx, rfl⟩ := List.mem_map.1 ha
  simp [hi.chain.read_of_mem hx]

theorem zone_chain_accounting_three_segments :
    let z : ZoneData := ⟨140016, 172968, 157632, some 40000,
      [(40000, ⟨some 20000, 132968⟩), (20000, ⟨some 4096, 16472⟩), (4096, ⟨none, 8192⟩)]⟩
    ZoneReach ZoneConstants.v8 z ∧
      (∃ z', z.deleteAll ZoneConstants.v8 = some (z', [40000, 4096]) ∧ z'.head = some 20000) ∧
      ∃ C, z.segments = some C ∧ (C.map Prod.fst).Nodup ∧
        (∀ a, (z.mem.read a).isSome ↔ a ∈ C.map Prod.fst) ∧
        z.segmentBytesAllocated = toInt32 (C.map fun x => x.2.size).sum ∧
        ∃ z' deleted, z.deleteAll ZoneConstants.v8 = some (z', deleted) ∧
          DeleteAllSpec ZoneConstants.v8 C z' deleted := by
  have h₁ := ZoneReach.newExpand .init rfl
    (@newExpand_some ZoneConstants.v8 ZoneData.init 64 0 4096 rfl)
  have h₂ := ZoneReach.newExpand h₁ (by decide)
    (@newExpand_some ZoneConstants.v8 _ 64 8192 20000 rfl)
  have h₃ : ZoneReach ZoneConstants.v8 ⟨140016, 172968, 157632, some 40000,
      [(40000, ⟨some 20000, 132968⟩), (20000, ⟨some 4096, 16472⟩), (4096, ⟨none, 8192⟩)]⟩ :=
    ZoneReach.newExpand h₂ (by decide) (@newExpand_some ZoneConstants.v8 _ 100000 16472 40000 rfl)
  exact ⟨h₃, ⟨_, rfl, rfl⟩, zone_chain_accounting h₃⟩

theorem zone_counter_wraps :
    ∃ z, ZoneReach ZoneConstants.v8 z ∧ ∃ C, z.segments = some C ∧
      z.segmentBytesAllocated ≠ (C.map fun x => x.2.size).sum := by
  have h₁ := ZoneReach.newExpand .init (by rfl)
    (@newExpand_some ZoneConstants.v8 _ (2 ^ 29) _ (2 ^ 32) (by rfl))
  have h₂ := ZoneReach.newExpand h₁ (by decide)
    (@newExpand_some ZoneConstants.v8 _ (2 ^ 29) _ (2 ^ 33) (by rfl))
  have h₃ := ZoneReach.newExpand h₂ (by decide)
    (@newExpand_some ZoneConstants.v8 _ (2 ^ 29) _ (3 * 2 ^ 32) (by rfl))
  have h₄ := ZoneReach.newExpand h₃ (by decide)
    (@newExpand_some ZoneConstants.v8 _ (2 ^ 29) _ (2 ^ 34) (by rfl))
  let s : Int := 2 ^ 29 + 24
  exact ⟨_, h₄, [(2 ^ 34, ⟨some (3 * 2 ^ 32), s⟩), (3 * 2 ^ 32, ⟨some (2 ^ 33), s⟩),
    (2 ^ 33, ⟨some (2 ^ 32), s⟩), (2 ^ 32, ⟨none, s⟩)], by decide, by decide⟩

end EmbeddableV8
