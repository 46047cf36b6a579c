import EmbeddableV8.Ids
set_option autoImplicit false

/-!
The zone allocator of `zone.cc`. `zone.h` and `zone-inl.h` are not in the repository: their
constants are `ZoneConstants`. Memory is the headers of the live blocks by address; reading a
header that is not live, and a loop that outruns the live blocks, make the model `none`.
-/

namespace EmbeddableV8

structure Segment where
  next : Option Int
  size : Int
  deriving DecidableEq, Repr

/-- The headers of the blocks `malloc` handed out and `free` has not taken back, by address,
newest first. -/
abbrev Memory := List (Int × Segment)

namespace Memory

def read : Memory → Int → Option Segment
  | [], _ => none
  | (b, s) :: m, a => if b = a then some s else read m a

def write (m : Memory) (a : Int) (s : Segment) : Memory :=
  m.map fun p => if p.1 = a then (a, s) else p

def free (m : Memory) (a : Int) : Memory :=
  m.filter fun p => p.1 ≠ a

variable (m : Memory) (a b : Int) (s : Segment)

@[simp] theorem read_nil : read [] a = none := rfl

@[simp] theorem read_cons : read ((b, s) :: m) a = if b = a then some s else m.read a := rfl

theorem read_write : (m.write a s).read b = if b = a then (m.read a).map fun _ => s
    else m.read b := by
  induction m with
  | nil => simp [write]
  | cons p m ih =>
    obtain ⟨c, t⟩ := p
    simp only [write, List.map_cons] at ih ⊢
    by_cases hc : c = a <;> by_cases hb : b = a <;> by_cases hcb : c = b <;> simp_all

theorem read_free : (m.free a).read b = if b = a then none else m.read b := by
  induction m with
  | nil => simp [free]
  | cons p m ih =>
    obtain ⟨c, t⟩ := p
    simp only [free, List.filter_cons] at ih ⊢
    by_cases hc : c = a <;> by_cases hb : b = a <;> by_cases hcb : c = b <;> simp_all

@[simp] theorem length_write : (m.write a s).length = m.length := by simp [write]

theorem mem_keys_of_read {a : Int} {s : Segment} (h : m.read a = some s) :
    a ∈ m.map Prod.fst := by
  induction m with
  | nil => cases h
  | cons p m ih =>
    obtain ⟨c, t⟩ := p
    simp only [read_cons] at h
    split at h
    · simp [*]
    · simp [ih h]

end Memory

/-- `ZoneData` as `Zone::NewExpand` and `Zone::DeleteAll` use it, with the memory they read and
write. -/
structure ZoneData where
  position : Int
  limit : Int
  segmentBytesAllocated : Int
  head : Option Int
  mem : Memory

def ZoneData.init : ZoneData := ⟨0, 0, 0, none, []⟩

/-- `RoundDown(x, m)` of `utils.h`, not in the repository: `x & -m` for a power of two `m`,
the greatest multiple of `m` at or below `x`. -/
def roundDown (x m : Int) : Int := x - x % m

def roundUp (x m : Int) : Int := roundDown (x + m - 1) m

theorem toInt32_add_toInt32 (x y : Int) : toInt32 (toInt32 x + y) = toInt32 (x + y) := by
  unfold toInt32
  omega

theorem roundUp_le {m : Int} (hm : 0 < m) (x : Int) : roundUp x m ≤ x + m - 1 := by
  have := Int.emod_nonneg (x + m - 1) (ne_of_gt hm)
  unfold roundUp roundDown
  omega

theorem roundUp_ge {m : Int} (hm : 0 < m) (x : Int) : x ≤ roundUp x m := by
  have := Int.emod_lt_of_pos (x + m - 1) hm
  unfold roundUp roundDown
  omega

theorem roundUp_emod {m : Int} (x : Int) : roundUp x m % m = 0 := by
  simp [roundUp, roundDown, Int.sub_emod]

structure ZoneConstants where
  kAlignment : Int
  kMinimumSegmentSize : Int
  kMaximumSegmentSize : Int
  kMaximumKeptSegmentSize : Int
  segmentHeaderSize : Int
  alignment_pos : 0 < kAlignment
  header_nonneg : 0 ≤ segmentHeaderSize
  minimum_fits : segmentHeaderSize + kAlignment ≤ kMinimumSegmentSize
  minimum_le_maximum : kMinimumSegmentSize ≤ kMaximumSegmentSize

/-- The values on a 64-bit target: `kAlignment = kPointerSize`, 8 KB, 1 MB and 64 KB, and a
header of a pointer and an `int`, padded to 16 bytes. -/
def ZoneConstants.v8 : ZoneConstants where
  kAlignment := 8
  kMinimumSegmentSize := 8 * 1024
  kMaximumSegmentSize := 1024 * 1024
  kMaximumKeptSegmentSize := 64 * 1024
  segmentHeaderSize := 16
  alignment_pos := by decide
  header_nonneg := by decide
  minimum_fits := by decide
  minimum_le_maximum := by decide

variable (K : ZoneConstants)

namespace ZoneData

variable (z : ZoneData)

def adjustSegmentBytesAllocated (delta : Int) : ZoneData :=
  { z with segmentBytesAllocated := toInt32 (z.segmentBytesAllocated + delta) }

def segmentNew (size : Int) (block : Option Int) : ZoneData × Option Int :=
  let z := z.adjustSegmentBytesAllocated size
  match block with
  | none => (z, none)
  | some a => ({ z with mem := (a, ⟨z.head, size⟩) :: z.mem, head := some a }, some a)

def segmentDelete (segment size : Int) : ZoneData :=
  { z.adjustSegmentBytesAllocated (-size) with mem := z.mem.free segment }

def headSize : Option Int :=
  match z.head with
  | none => some 0
  | some h => (z.mem.read h).map Segment.size

end ZoneData

/-- `new_size` of `Zone::NewExpand` for a request of `size` bytes after a head segment of
`oldSize` bytes, in the code's `int` arithmetic: `kSegmentOverhead + size + (old_size << 1)`,
then clamped. -/
def newSegmentSize (size oldSize : Int) : Int :=
  let kSegmentOverhead := K.segmentHeaderSize + K.kAlignment
  let newSize := toInt32 (toInt32 (kSegmentOverhead + size) + toInt32 (2 * oldSize))
  if newSize < K.kMinimumSegmentSize then K.kMinimumSegmentSize
  else if newSize > K.kMaximumSegmentSize then
    max (toInt32 (kSegmentOverhead + size)) K.kMaximumSegmentSize
  else newSize

/-- `Zone::NewExpand(size)`, with the block `Malloced::New` returns. After a `NULL` block it
returns `NULL` (`none`), once `V8::FatalProcessOutOfMemory` has been called. -/
def ZoneData.newExpand (z : ZoneData) (size : Int) (block : Option Int) :
    Option (ZoneData × Option Int) := do
  let oldSize ← z.headSize
  let newSize := newSegmentSize K size oldSize
  match z.segmentNew newSize block with
  | (z, none) => some (z, none)
  | (z, some segment) =>
    let result := roundUp (segment + K.segmentHeaderSize) K.kAlignment
    some ({ z with position := result + size, limit := segment + newSize }, some result)

/-- The first loop of `Zone::DeleteAll`: from `head_`, pass the segments larger than
`kMaximumKeptSegmentSize`; the segment to keep, if any. -/
def findKeep (m : Memory) : Nat → Option Int → Option (Option Int)
  | _, none => some none
  | 0, some _ => none
  | n + 1, some a => do
    let s ← m.read a
    if s.size > K.kMaximumKeptSegmentSize then findKeep m n s.next else some (some a)

/-- The second loop of `Zone::DeleteAll`: from `head_`, clear the kept segment's `next_` and
delete every other segment, reading `next()` first. The segments handed to `Segment::Delete`,
in order, come with the result. -/
def deleteSegments (keep : Option Int) : Nat → Option Int → ZoneData → Option (ZoneData × List Int)
  | _, none, z => some (z, [])
  | 0, some _, _ => none
  | n + 1, some a, z => do
    let s ← z.mem.read a
    if some a = keep then
      deleteSegments keep n s.next { z with mem := z.mem.write a ⟨none, s.size⟩ }
    else
      let r ← deleteSegments keep n s.next (z.segmentDelete a s.size)
      some (r.1, a :: r.2)

def ZoneData.deleteAll (z : ZoneData) : Option (ZoneData × List Int) := do
  let keep ← findKeep K z.mem z.mem.length z.head
  let (z', deleted) ← deleteSegments keep z.mem.length z.head z
  match keep with
  | some k =>
    let s ← z'.mem.read k
    some ({ z' with
      position := roundUp (k + K.segmentHeaderSize) K.kAlignment
      limit := k + s.size
      head := keep }, deleted)
  | none => some ({ z' with position := 0, limit := 0, head := none }, deleted)

/-- The `ASSERT`s of `Zone::NewExpand(size)`: on entry the request is a multiple of
`kAlignment` and does not fit below `limit_`; on return `position_` is within `limit_`. -/
def ZoneData.NewExpandAsserts (z : ZoneData) (size : Int) (block : Option Int) : Prop :=
  (size = roundDown size K.kAlignment ∧ z.limit < z.position + size) ∧
    ∀ z' r, z.newExpand K size block = some (z', some r) → z'.position ≤ z'.limit

section NewExpand

variable {K}

theorem newSegmentSize_ge_minimum (size oldSize : Int) :
    K.kMinimumSegmentSize ≤ newSegmentSize K size oldSize := by
  have := K.minimum_le_maximum
  unfold newSegmentSize
  dsimp only
  split_ifs <;> omega

theorem newSegmentSize_ge {size oldSize : Int} (hsize : 0 ≤ size) (hold : 0 ≤ oldSize)
    (hno : K.segmentHeaderSize + K.kAlignment + size + 2 * oldSize < 2 ^ 31) :
    K.segmentHeaderSize + K.kAlignment + size ≤ newSegmentSize K size oldSize := by
  have := K.alignment_pos
  have := K.header_nonneg
  unfold newSegmentSize toInt32
  dsimp only
  split_ifs <;> omega

theorem newExpand_some {z : ZoneData} {size oldSize : Int} (a : Int)
    (hold : z.headSize = some oldSize) :
    z.newExpand K size (some a) = some (
      { position := roundUp (a + K.segmentHeaderSize) K.kAlignment + size
        limit := a + newSegmentSize K size oldSize
        segmentBytesAllocated := toInt32 (z.segmentBytesAllocated + newSegmentSize K size oldSize)
        head := some a
        mem := (a, ⟨z.head, newSegmentSize K size oldSize⟩) :: z.mem },
      some (roundUp (a + K.segmentHeaderSize) K.kAlignment)) := by
  simp [ZoneData.newExpand, hold, ZoneData.segmentNew, ZoneData.adjustSegmentBytesAllocated]

/-- Where no `int` overflows in computing `new_size`, the block `NewExpand` returns is aligned
and ends within the segment just allocated, so the `ASSERT` that closes `NewExpand` holds and
its `ASSERT`s come down to the two its caller must meet on entry. -/
theorem newExpand_fits {z : ZoneData} {size oldSize : Int} (a : Int)
    (hold : z.headSize = some oldSize) (hsize : 0 ≤ size) (hpos : 0 ≤ oldSize)
    (hno : K.segmentHeaderSize + K.kAlignment + size + 2 * oldSize < 2 ^ 31) :
    ∃ z' r, z.newExpand K size (some a) = some (z', some r) ∧ r % K.kAlignment = 0 ∧
      r + size ≤ z'.limit ∧
      (z.NewExpandAsserts K size (some a) ↔
        size = roundDown size K.kAlignment ∧ z.limit < z.position + size) := by
  have hge := newSegmentSize_ge hsize hpos hno
  have hr := roundUp_le K.alignment_pos (a + K.segmentHeaderSize)
  have hfit : roundUp (a + K.segmentHeaderSize) K.kAlignment + size ≤
      a + newSegmentSize K size oldSize := by omega
  refine ⟨_, _, newExpand_some a hold, roundUp_emod _, hfit,
    ⟨fun h => h.1, fun h => ⟨h, fun z' r hn => ?_⟩⟩⟩
  rw [newExpand_some a hold] at hn
  obtain ⟨rfl, -⟩ := Prod.mk.inj (Option.some.inj hn)
  exact hfit

theorem newExpand_fits_first_requests :
    (ZoneData.init.headSize = some 0 ∧ (0 : Int) ≤ 64 ∧ (0 : Int) ≤ 0 ∧
      ZoneConstants.v8.segmentHeaderSize + ZoneConstants.v8.kAlignment + 64 + 2 * 0 < 2 ^ 31 ∧
      ∃ z' r, ZoneData.init.newExpand ZoneConstants.v8 64 (some 4096) = some (z', some r) ∧
        r % ZoneConstants.v8.kAlignment = 0 ∧ r + 64 ≤ z'.limit ∧
        (ZoneData.init.NewExpandAsserts ZoneConstants.v8 64 (some 4096) ↔
          64 = roundDown 64 ZoneConstants.v8.kAlignment ∧
            ZoneData.init.limit < ZoneData.init.position + 64)) ∧
    let z : ZoneData := ⟨4176, 12288, 8192, some 4096, [(4096, ⟨none, 8192⟩)]⟩
    z.headSize = some 8192 ∧ (0 : Int) ≤ 8192 ∧ (0 : Int) ≤ 8192 ∧
      ZoneConstants.v8.segmentHeaderSize + ZoneConstants.v8.kAlignment + 8192 + 2 * 8192 <
        2 ^ 31 ∧
      ∃ z' r, z.newExpand ZoneConstants.v8 8192 (some 20000) = some (z', some r) ∧
        r % ZoneConstants.v8.kAlignment = 0 ∧ r + 8192 ≤ z'.limit ∧
        (z.NewExpandAsserts ZoneConstants.v8 8192 (some 20000) ↔
          8192 = roundDown 8192 ZoneConstants.v8.kAlignment ∧ z.limit < z.position + 8192) :=
  have hold : ZoneData.init.headSize = some 0 := rfl
  have hno : ZoneConstants.v8.segmentHeaderSize + ZoneConstants.v8.kAlignment + 64 + 2 * 0 <
      (2 : Int) ^ 31 := by decide
  have hold' : ZoneData.headSize ⟨4176, 12288, 8192, some 4096, [(4096, ⟨none, 8192⟩)]⟩ =
      some 8192 := rfl
  have hno' : ZoneConstants.v8.segmentHeaderSize + ZoneConstants.v8.kAlignment + 8192 +
      2 * 8192 < (2 : Int) ^ 31 := by decide
  ⟨⟨hold, by decide, le_refl 0, hno, newExpand_fits 4096 hold (by decide) (le_refl 0) hno⟩,
    hold', by decide, by decide, hno', newExpand_fits 20000 hold' (by decide) (by decide) hno'⟩

end NewExpand

/-- A request of `2^31 - kAlignment` bytes, a positive multiple of `kAlignment`, to a zone
without segments: `kSegmentOverhead + size` overflows, `new_size` is clamped up to
`kMinimumSegmentSize`, and the aligned block `NewExpand` returns runs past `limit_`. -/
theorem newExpand_overruns_segment (z : ZoneData) (block : Int) :
    let size := 2 ^ 31 - ZoneConstants.v8.kAlignment
    ∃ z' r, { z with head := none }.newExpand ZoneConstants.v8 size (some block) =
        some (z', some r) ∧
      r % ZoneConstants.v8.kAlignment = 0 ∧
      z'.limit = block + ZoneConstants.v8.kMinimumSegmentSize ∧ z'.limit < r + size := by
  have hsize : newSegmentSize ZoneConstants.v8 (2 ^ 31 - ZoneConstants.v8.kAlignment) 0 =
      ZoneConstants.v8.kMinimumSegmentSize := by decide
  have hr := roundUp_ge ZoneConstants.v8.alignment_pos (block + ZoneConstants.v8.segmentHeaderSize)
  refine ⟨_, _, newExpand_some block rfl, roundUp_emod _, by simp only [hsize], ?_⟩
  simp only [hsize]
  simp only [ZoneConstants.v8] at hr ⊢
  omega

end EmbeddableV8
