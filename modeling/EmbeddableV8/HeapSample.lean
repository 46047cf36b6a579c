import Mathlib.Algebra.BigOperators.Group.List
import EmbeddableV8.Archivable
import EmbeddableV8.RetainerPrint
set_option autoImplicit false

namespace EmbeddableV8

structure NumberAndSizeInfo where
  number : Nat
  bytes : Nat
  deriving DecidableEq, Repr

def NumberAndSizeInfo.add (i : NumberAndSizeInfo) (size : Nat) : NumberAndSizeInfo :=
  ⟨i.number + 1, i.bytes + size⟩

/-- What the statistics read of an object besides its kind: `Size()`, `map()->instance_type()`,
and a `JSObject`'s `properties()` and `elements()`. -/
structure ObjectLayout where
  size : Nat → Nat
  instanceType : Nat → Nat
  properties : Nat → Nat
  elements : Nat → Nat

/-- The instance types of `objects.h`: those of `STRING_TYPE_LIST`, all below
`FIRST_NONSTRING_TYPE`, and `LAST_TYPE`. -/
structure InstanceTypes where
  stringTypes : List Nat
  firstNonstringType : Nat
  lastType : Nat
  stringTypes_nodup : stringTypes.Nodup
  stringTypes_lt : ∀ t ∈ stringTypes, t < firstNonstringType

/-- A `LOG` event of `WriteSample`: the `STRING_TYPE` item and the items of other instance types,
the constructor events of `ConstructorHeapProfile::Call`, and the retainer lines of
`RetainersPrinter::PrintRetainers`. -/
inductive HeapSampleEvent where
  | begin
  | stats (capacity sizeOfObjects : Nat)
  | stringItem (number bytes : Nat)
  | typeItem (type number bytes : Nat)
  | constructor (name number bytes : Nat)
  | retainers (cluster : Cluster) (items : List RetainerItem)
  | finish
  deriving DecidableEq, Repr

def HeapSampleEvent.itemCounts : HeapSampleEvent → Option NumberAndSizeInfo
  | .stringItem n b => some ⟨n, b⟩
  | .typeItem _ n b => some ⟨n, b⟩
  | _ => none

section Sample

variable (sym : ProfilerSymbols) (h : ObjectHeap) (L : ObjectLayout)

def fixedArrayLength (a : Nat) : Nat :=
  match h a with
  | .fixedArray es => es.length
  | _ => 0

def calculateNetworkSize (o : Nat) : Nat :=
  L.size o + (if fixedArrayLength h (L.properties o) ≠ 0 then L.size (L.properties o) else 0) +
    (if fixedArrayLength h (L.elements o) ≠ 0 then L.size (L.elements o) else 0)

def histogramCollectStats (info : Nat → NumberAndSizeInfo) (o : Nat) : Nat → NumberAndSizeInfo :=
  Function.update info (L.instanceType o) ((info (L.instanceType o)).add (L.size o))

def constructorSample (o : Nat) : Option (Nat × Nat) :=
  match h o with
  | .string => some (sym.stringSymbol, L.size o)
  | .jsObject ctor _ => some (ctor, calculateNetworkSize h L o)
  | _ => none

def insertInfo (k size : Nat) : List (Nat × NumberAndSizeInfo) → List (Nat × NumberAndSizeInfo)
  | [] => [(k, (⟨0, 0⟩ : NumberAndSizeInfo).add size)]
  | e :: es =>
    if k < e.1 then (k, (⟨0, 0⟩ : NumberAndSizeInfo).add size) :: e :: es
    else if k = e.1 then (e.1, e.2.add size) :: es
    else e :: insertInfo k size es

def constructorCollectStats (t : List (Nat × NumberAndSizeInfo)) (o : Nat) :
    List (Nat × NumberAndSizeInfo) :=
  match constructorSample sym h L o with
  | some (c, size) => insertInfo c size t
  | none => t

def constructorSamples (objs : List Nat) (c : Nat) : List (Nat × Nat) :=
  (objs.filterMap (constructorSample sym h L)).filter (·.1 = c)

variable (T : InstanceTypes)

/-- The item events of `WriteSample` from the histogram `info`: the string types lumped, then each
other type with bytes. -/
def histogramItems (info : Nat → NumberAndSizeInfo) : List HeapSampleEvent :=
  let stringNumber := (T.stringTypes.map fun t => (info t).number).sum
  let stringBytes := (T.stringTypes.map fun t => (info t).bytes).sum
  (if stringBytes > 0 then [.stringItem stringNumber stringBytes] else []) ++
    ((List.range' T.firstNonstringType (T.lastType + 1 - T.firstNonstringType)).filter
        fun i => (info i).bytes > 0).map fun i => .typeItem i (info i).number (info i).bytes

/-- `HeapProfiler::WriteSample` over the heap objects `objs` in `HeapIterator`'s order, with the
roots `roots`, `Heap::Capacity()` and `Heap::SizeOfObjects()`. -/
def writeSample (sort : SortFn) (kMaxPassesCount kMaxRetainersToPrint : Nat)
    (roots objs : List Nat) (capacity sizeOfObjects : Nat) : List HeapSampleEvent :=
  let info := objs.foldl (histogramCollectStats L) fun _ => ⟨0, 0⟩
  let consProfile := objs.foldl (constructorCollectStats sym h L) []
  [.begin, .stats capacity sizeOfObjects] ++ histogramItems T info ++
    consProfile.map (fun e => .constructor e.1 e.2.number e.2.bytes) ++
    (debugPrintStats sort kMaxPassesCount kMaxRetainersToPrint
      (retainerProfile sym h roots objs)).map (fun l => .retainers l.1 l.2) ++
    [.finish]

end Sample

/-! ### The histogram -/

section Histogram

variable {L : ObjectLayout}

theorem foldl_histogramCollectStats (objs : List Nat) (info : Nat → NumberAndSizeInfo) (t : Nat) :
    objs.foldl (histogramCollectStats L) info t =
      ⟨(info t).number + (objs.filter (L.instanceType · = t)).length,
        (info t).bytes + ((objs.filter (L.instanceType · = t)).map L.size).sum⟩ := by
  induction objs generalizing info with
  | nil => simp
  | cons o objs ih =>
    rw [List.foldl_cons, ih]
    by_cases ho : L.instanceType o = t
    · subst ho
      simp [histogramCollectStats, NumberAndSizeInfo.add]
      omega
    · simp [histogramCollectStats, Function.update_noteq (Ne.symm ho), ho]

theorem sum_map_filter_eq {T : List Nat} (hT : T.Nodup) (f w : Nat → Nat) (l : List Nat) :
    (T.map fun t => ((l.filter (f · = t)).map w).sum).sum = ((l.filter (f · ∈ T)).map w).sum := by
  induction l with
  | nil => simp [List.sum_replicate]
  | cons o l ih =>
    have hsplit : ∀ t, ((List.filter (f · = t) (o :: l)).map w).sum =
        (if f o = t then w o else 0) + ((l.filter (f · = t)).map w).sum := fun t => by
      by_cases h : f o = t <;> simp [List.filter_cons, h]
    have hone : (T.map fun t => if f o = t then w o else 0).sum = if f o ∈ T then w o else 0 := by
      clear ih hsplit
      induction T with
      | nil => simp
      | cons t T ihT =>
        obtain ⟨ht, hT'⟩ := List.nodup_cons.1 hT
        by_cases h : f o = t
        · subst h
          simp [ihT hT', ht]
        · simp [ihT hT', h]
    simp only [hsplit, List.sum_map_add, hone, ih]
    by_cases h : f o ∈ T <;> simp [List.filter_cons, h]

theorem sum_map_filter_of_eq_zero {l : List Nat} {p : Nat → Bool} {g : Nat → Nat}
    (h : ∀ i ∈ l, p i = false → g i = 0) : ((l.filter p).map g).sum = (l.map g).sum := by
  induction l with
  | nil => rfl
  | cons i l ih =>
    have ih := ih fun j hj => h j (List.mem_cons_of_mem _ hj)
    cases hp : p i
    · simp [List.filter_cons, hp, ih, h i (List.mem_cons_self _ _) hp]
    · simp [List.filter_cons, hp, ih]

theorem sum_map_eq_zero_of {l : List Nat} {f g : Nat → Nat} (hfg : ∀ t ∈ l, f t = 0 → g t = 0)
    (hf : (l.map f).sum = 0) : (l.map g).sum = 0 := by
  induction l with
  | nil => rfl
  | cons a l ih =>
    simp only [List.map_cons, List.sum_cons] at hf ⊢
    rw [hfg a (List.mem_cons_self _ _) (by omega),
      ih (fun t ht => hfg t (List.mem_cons_of_mem _ ht)) (by omega)]

theorem sum_filter_add_sum_filter {l : List Nat} {p q : Nat → Prop} [DecidablePred p]
    [DecidablePred q] (w : Nat → Nat) (h : ∀ o ∈ l, (p o ↔ ¬q o)) :
    ((l.filter (p ·)).map w).sum + ((l.filter (q ·)).map w).sum = (l.map w).sum := by
  induction l with
  | nil => rfl
  | cons o l ih =>
    have ih := ih fun x hx => h x (List.mem_cons_of_mem _ hx)
    have hq : q o ↔ ¬p o := by simp [h o (List.mem_cons_self _ _)]
    by_cases hp : p o <;> simp [List.filter_cons, hp, hq, ← ih] <;> omega

variable {T : InstanceTypes} {objs : List Nat}

theorem mem_range'_types {t : Nat} :
    t ∈ List.range' T.firstNonstringType (T.lastType + 1 - T.firstNonstringType) ↔
      T.firstNonstringType ≤ t ∧ t ≤ T.lastType := by
  rw [List.mem_range'_1]
  omega

theorem histogramItems_total (w W : Nat → Nat) (info : Nat → NumberAndSizeInfo)
    (hW : ∀ t, W t = ((objs.filter (L.instanceType · = t)).map w).sum)
    (hzero : ∀ t, (info t).bytes = 0 → W t = 0)
    (htype : ∀ o ∈ objs, L.instanceType o ∈ T.stringTypes ∨
      T.firstNonstringType ≤ L.instanceType o ∧ L.instanceType o ≤ T.lastType) :
    (if (T.stringTypes.map fun t => (info t).bytes).sum > 0 then (T.stringTypes.map W).sum else 0) +
      (((List.range' T.firstNonstringType (T.lastType + 1 - T.firstNonstringType)).filter
        fun i => (info i).bytes > 0).map W).sum = (objs.map w).sum := by
  have hstr : (if (T.stringTypes.map fun t => (info t).bytes).sum > 0 then (T.stringTypes.map W).sum
      else 0) = (T.stringTypes.map W).sum := by
    by_cases hpos : (T.stringTypes.map fun t => (info t).bytes).sum > 0
    · rw [if_pos hpos]
    · rw [if_neg hpos, sum_map_eq_zero_of (fun t _ => hzero t) (by omega)]
  rw [hstr, sum_map_filter_of_eq_zero fun i _ hi => hzero i (by simpa using hi)]
  obtain rfl := funext hW
  rw [sum_map_filter_eq T.stringTypes_nodup, sum_map_filter_eq (List.nodup_range' _ _)]
  refine sum_filter_add_sum_filter w fun o ho => ?_
  rw [mem_range'_types]
  constructor
  · intro hs hr
    have := T.stringTypes_lt _ hs
    omega
  · intro hr
    exact (htype o ho).resolve_right hr

theorem filterMap_histogramItems (info : Nat → NumberAndSizeInfo) :
    (histogramItems T info).filterMap HeapSampleEvent.itemCounts =
      (if (T.stringTypes.map fun t => (info t).bytes).sum > 0 then
        [⟨(T.stringTypes.map fun t => (info t).number).sum,
          (T.stringTypes.map fun t => (info t).bytes).sum⟩] else []) ++
      ((List.range' T.firstNonstringType (T.lastType + 1 - T.firstNonstringType)).filter
        fun i => (info i).bytes > 0).map info := by
  unfold histogramItems
  rw [List.filterMap_append, List.filterMap_map]
  congr 1
  · split <;> rfl
  · rw [← List.filterMap_eq_map]
    rfl

end Histogram

section Sample

variable {sym : ProfilerSymbols} {h : ObjectHeap} {L : ObjectLayout} {T : InstanceTypes}

theorem filterMap_writeSample (sort : SortFn) (kMaxPassesCount kMaxRetainersToPrint : Nat)
    (roots objs : List Nat) (capacity sizeOfObjects : Nat) :
    (writeSample sym h L T sort kMaxPassesCount kMaxRetainersToPrint roots objs capacity
        sizeOfObjects).filterMap HeapSampleEvent.itemCounts =
      (histogramItems T (objs.foldl (histogramCollectStats L) fun _ => ⟨0, 0⟩)).filterMap
        HeapSampleEvent.itemCounts := by
  simp [writeSample, List.filterMap_append, List.filterMap_map, Function.comp_def,
    HeapSampleEvent.itemCounts]

/-- For a heap of objects with positive sizes and covered instance types, the item events of
`WriteSample` count every object once and every byte once. -/
theorem writeSample_items_account (sort : SortFn) (kMaxPassesCount kMaxRetainersToPrint : Nat)
    (roots objs : List Nat) (capacity sizeOfObjects : Nat) (hsize : ∀ o ∈ objs, 0 < L.size o)
    (htype : ∀ o ∈ objs, L.instanceType o ∈ T.stringTypes ∨
      T.firstNonstringType ≤ L.instanceType o ∧ L.instanceType o ≤ T.lastType) :
    (((writeSample sym h L T sort kMaxPassesCount kMaxRetainersToPrint roots objs capacity
        sizeOfObjects).filterMap HeapSampleEvent.itemCounts).map NumberAndSizeInfo.number).sum =
      objs.length ∧
    (((writeSample sym h L T sort kMaxPassesCount kMaxRetainersToPrint roots objs capacity
        sizeOfObjects).filterMap HeapSampleEvent.itemCounts).map NumberAndSizeInfo.bytes).sum =
      (objs.map L.size).sum := by
  rw [filterMap_writeSample, filterMap_histogramItems]
  have hinfo := foldl_histogramCollectStats (L := L) objs fun _ => ⟨0, 0⟩
  generalize objs.foldl (histogramCollectStats L) (fun _ => ⟨0, 0⟩) = info at hinfo
  have hnum : ∀ t, (info t).number = ((objs.filter (L.instanceType · = t)).map fun _ => 1).sum :=
    fun t => by simp [hinfo t]
  have hbytes : ∀ t, (info t).bytes = ((objs.filter (L.instanceType · = t)).map L.size).sum :=
    fun t => by simp [hinfo t]
  have hzero : ∀ t, (info t).bytes = 0 → (info t).number = 0 := fun t h0 => by
    have := List.length_le_sum_of_one_le ((objs.filter (L.instanceType · = t)).map L.size)
      fun i hi => by
        obtain ⟨o, ho, rfl⟩ := List.mem_map.1 hi
        exact hsize o (List.mem_of_mem_filter ho)
    simp only [List.length_map, hinfo t] at this h0 ⊢
    omega
  constructor
  · have := histogramItems_total (fun _ => 1) (fun t => (info t).number) info hnum hzero htype
    simp only [List.map_append, List.sum_append, List.map_map, Function.comp_def] at this ⊢
    split_ifs at this ⊢ <;> simpa [List.sum_replicate] using this
  · have := histogramItems_total L.size (fun t => (info t).bytes) info hbytes (fun _ h => h) htype
    simp only [List.map_append, List.sum_append, List.map_map, Function.comp_def] at this ⊢
    split_ifs at this ⊢ <;> simpa using this

def sampleLayout : ObjectLayout := ⟨fun _ => 16, fun o => if o = 11 then 0 else 150, id, id⟩

def sampleInstanceTypes : InstanceTypes := ⟨[0, 1], 128, 160, by decide, by decide⟩

theorem writeSample_items_account_sample :
    (∀ o ∈ [10, 11], 0 < sampleLayout.size o) ∧
      (∀ o ∈ [10, 11], sampleLayout.instanceType o ∈ sampleInstanceTypes.stringTypes ∨
        sampleInstanceTypes.firstNonstringType ≤ sampleLayout.instanceType o ∧
          sampleLayout.instanceType o ≤ sampleInstanceTypes.lastType) ∧
      (((writeSample sampleSymbols sampleHeap sampleLayout sampleInstanceTypes .mergeSort 3 2 [10]
          [10, 11] 4096 32).filterMap HeapSampleEvent.itemCounts).map
          NumberAndSizeInfo.number).sum = [10, 11].length ∧
      (((writeSample sampleSymbols sampleHeap sampleLayout sampleInstanceTypes .mergeSort 3 2 [10]
          [10, 11] 4096 32).filterMap HeapSampleEvent.itemCounts).map
          NumberAndSizeInfo.bytes).sum = ([10, 11].map sampleLayout.size).sum :=
  have hsize : ∀ o ∈ [10, 11], 0 < sampleLayout.size o := by decide
  have htype : ∀ o ∈ [10, 11], sampleLayout.instanceType o ∈ sampleInstanceTypes.stringTypes ∨
      sampleInstanceTypes.firstNonstringType ≤ sampleLayout.instanceType o ∧
        sampleLayout.instanceType o ≤ sampleInstanceTypes.lastType := by decide
  ⟨hsize, htype, writeSample_items_account .mergeSort 3 2 [10] [10, 11] 4096 32 hsize htype⟩

end Sample

/-! ### The constructor profile -/

abbrev InfoSorted (t : List (Nat × NumberAndSizeInfo)) : Prop := (t.map Prod.fst).Pairwise (· < ·)

section Constructors

variable {k size c : Nat} {t : List (Nat × NumberAndSizeInfo)}

theorem mem_keys_insertInfo {x : Nat} :
    x ∈ (insertInfo k size t).map Prod.fst ↔ x = k ∨ x ∈ t.map Prod.fst := by
  induction t with
  | nil => simp [insertInfo]
  | cons e es ih =>
    unfold insertInfo
    split_ifs with hlt heq
    · simp
    · simp [heq]
    · simp only [List.map_cons, List.mem_cons, ih]
      exact or_left_comm

theorem insertInfo_sorted (ht : InfoSorted t) : InfoSorted (insertInfo k size t) := by
  induction t with
  | nil => simp [InfoSorted, insertInfo]
  | cons e es ih =>
    obtain ⟨he, hes⟩ := List.pairwise_cons.1 ht
    unfold insertInfo
    split_ifs with hlt heq
    · exact List.pairwise_cons.2 ⟨fun x hx => by
        rcases List.mem_cons.1 hx with rfl | hx
        · exact hlt
        · exact hlt.trans (he x hx), ht⟩
    · exact ht
    · refine List.pairwise_cons.2 ⟨fun x hx => ?_, ih hes⟩
      rcases mem_keys_insertInfo.1 hx with rfl | hx
      · omega
      · exact he x hx

theorem lookup_eq_none_of_lt_head {e : Nat × NumberAndSizeInfo}
    {es : List (Nat × NumberAndSizeInfo)} (ht : InfoSorted (e :: es)) (hk : k < e.1) :
    (e :: es).lookup k = none := by
  rw [List.lookup_eq_none_iff]
  intro p hp
  rw [bne_iff_ne]
  rintro rfl
  rcases List.mem_cons.1 hp with rfl | hp
  · omega
  · have := List.rel_of_pairwise_cons ht (List.mem_map_of_mem Prod.fst hp)
    omega

theorem lookup_insertInfo (ht : InfoSorted t) (c : Nat) :
    (insertInfo k size t).lookup c =
      if c = k then some (((t.lookup k).getD ⟨0, 0⟩).add size) else t.lookup c := by
  induction t with
  | nil =>
    by_cases hc : c = k
    · subst hc; simp [insertInfo]
    · rw [insertInfo, lookup_cons_ne hc, if_neg hc]
  | cons e es ih =>
    obtain ⟨ke, w⟩ := e
    have hes : InfoSorted es := (List.pairwise_cons.1 ht).2
    unfold insertInfo
    dsimp only
    by_cases hlt : k < ke
    · rw [if_pos hlt, lookup_eq_none_of_lt_head ht hlt]
      by_cases hc : c = k
      · subst hc; simp
      · rw [lookup_cons_ne hc, if_neg hc]
    by_cases heq : k = ke
    · subst heq
      rw [if_neg hlt, if_pos rfl]
      by_cases hc : c = k
      · subst hc; simp
      · rw [lookup_cons_ne hc, if_neg hc, lookup_cons_ne hc]
    have hne : k ≠ ke := heq
    rw [if_neg hlt, if_neg heq]
    by_cases hce : c = ke
    · subst hce
      rw [List.lookup_cons_self, if_neg (Ne.symm hne), List.lookup_cons_self]
    · rw [lookup_cons_ne hce, ih hes, lookup_cons_ne hne, lookup_cons_ne hce]

theorem lookup_eq_some_iff_mem (ht : InfoSorted t) {i : NumberAndSizeInfo} :
    t.lookup c = some i ↔ (c, i) ∈ t := by
  refine ⟨mem_of_lookup_eq_some, fun hm => ?_⟩
  induction t with
  | nil => nomatch hm
  | cons e es ih =>
    obtain ⟨ke, w⟩ := e
    rcases List.mem_cons.1 hm with he | hm
    · cases he
      exact List.lookup_cons_self
    · have hlt := List.rel_of_pairwise_cons ht (List.mem_map_of_mem Prod.fst hm)
      rw [lookup_cons_ne (by dsimp only at hlt; omega), ih (List.pairwise_cons.1 ht).2 hm]

theorem constructorCollectStats_sorted {sym : ProfilerSymbols} {h : ObjectHeap} {L : ObjectLayout}
    (ht : InfoSorted t) (o : Nat) : InfoSorted (constructorCollectStats sym h L t o) := by
  unfold constructorCollectStats
  split
  · exact insertInfo_sorted ht
  · exact ht

theorem lookup_foldl_constructorCollectStats {sym : ProfilerSymbols} {h : ObjectHeap}
    {L : ObjectLayout} (objs : List Nat) (ht : InfoSorted t) :
    (objs.foldl (constructorCollectStats sym h L) t).lookup c =
      if constructorSamples sym h L objs c = [] then t.lookup c
      else some ⟨((t.lookup c).getD ⟨0, 0⟩).number + (constructorSamples sym h L objs c).length,
        ((t.lookup c).getD ⟨0, 0⟩).bytes +
          ((constructorSamples sym h L objs c).map Prod.snd).sum⟩ := by
  induction objs generalizing t with
  | nil => rfl
  | cons o objs ih =>
    rw [List.foldl_cons, ih (constructorCollectStats_sorted ht o)]
    unfold constructorSamples constructorCollectStats
    rw [List.filterMap_cons]
    cases hs : constructorSample sym h L o with
    | none => rfl
    | some p =>
      obtain ⟨k, s⟩ := p
      rw [lookup_insertInfo ht]
      by_cases hk : k = c
      · subst hk
        rw [List.filter_cons_of_pos (by simp), if_pos rfl]
        split <;> simp [*, NumberAndSizeInfo.add, Nat.add_assoc, Nat.add_comm 1]
      · rw [List.filter_cons_of_neg (by simpa using hk), if_neg (Ne.symm hk)]

end Constructors

/-- `WriteSample` logs a constructor event for `c` exactly when strings or `JSObject`s of
constructor `c` are on the heap, with their number and network bytes. -/
theorem writeSample_constructor_events {sym : ProfilerSymbols} {h : ObjectHeap} {L : ObjectLayout}
    {T : InstanceTypes} (sort : SortFn) (kMaxPassesCount kMaxRetainersToPrint : Nat)
    (roots objs : List Nat) (capacity sizeOfObjects c number bytes : Nat) :
    HeapSampleEvent.constructor c number bytes ∈ writeSample sym h L T sort kMaxPassesCount
        kMaxRetainersToPrint roots objs capacity sizeOfObjects ↔
      constructorSamples sym h L objs c ≠ [] ∧ number = (constructorSamples sym h L objs c).length ∧
        bytes = ((constructorSamples sym h L objs c).map Prod.snd).sum := by
  have hsorted : InfoSorted (objs.foldl (constructorCollectStats sym h L) []) :=
    List.foldlRecOn _ _ _ List.Pairwise.nil fun t ht o _ => constructorCollectStats_sorted ht o
  have hmem : HeapSampleEvent.constructor c number bytes ∈ writeSample sym h L T sort
      kMaxPassesCount kMaxRetainersToPrint roots objs capacity sizeOfObjects ↔
      (c, ⟨number, bytes⟩) ∈ objs.foldl (constructorCollectStats sym h L) [] := by
    simp [writeSample, histogramItems]
    exact ⟨fun ⟨a, b, hab, ha, hn, hb⟩ => by subst ha hn hb; exact hab,
      fun hm => ⟨c, _, hm, rfl, rfl, rfl⟩⟩
  rw [hmem, ← lookup_eq_some_iff_mem hsorted,
    lookup_foldl_constructorCollectStats (t := []) objs List.Pairwise.nil]
  simp [eq_comm]

end EmbeddableV8
